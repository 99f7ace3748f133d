import Mathlib.Control.Monad.Basic
import Mathlib.Logic.Function.Iterate
import Mathlib.Tactic.Push
import PeachOS.Fat16Read

/-! The walk of `fat16_get_cluster_for_offset` along the entries of the FAT, as
`fat16_get_fat_entry` returns them, and which entries it tells apart. -/

namespace PeachOS
open Program

def DiskStream.rewind (stream : DiskStream) : DiskStream := { stream with pos := 0 }

def FatPrivate.rewind (volume : FatPrivate) : FatPrivate :=
  { volume with
    clusterReadStream := volume.clusterReadStream.map DiskStream.rewind
    fatReadStream := volume.fatReadStream.map DiskStream.rewind
    directoryStream := volume.directoryStream.map DiskStream.rewind }

/-- The disk with its streams at their starts: what there is of it wherever they stand. -/
def Disk.rewind (disk : Disk) : Disk := disk.withPrivate FatPrivate.rewind

/-- What a call does is the same wherever the streams stand, and moving them is all that it
does to the disk. -/
def Unmoved {α : Type} (call : Prog Disk Stop α) : Prop :=
  ∀ disk, (call disk).1 = (call disk.rewind).1 ∧ (call disk).2.rewind = disk.rewind

section Rewind
variable {disk other : Disk} {fatPrivate : FatPrivate} {α β : Type}

theorem Disk.rewind_rewind (disk : Disk) : disk.rewind.rewind = disk.rewind := by
  unfold Disk.rewind Disk.withPrivate
  dsimp only
  rw [Option.map_map]
  congr 1
  apply Option.map_congr
  intro volume _
  unfold FatPrivate.rewind
  dsimp only [Function.comp_apply]
  rw [Option.map_map, Option.map_map, Option.map_map]
  rfl

theorem Unmoved.pure (result : α) : Unmoved (pure result : Prog Disk Stop α) := fun _ => ⟨rfl, rfl⟩

theorem Unmoved.stop (reason : Stop) : Unmoved (stop reason : Prog Disk Stop α) := fun _ => ⟨rfl, rfl⟩

theorem Unmoved.ite {condition : Prop} [Decidable condition] {first second : Prog Disk Stop α}
    (yes : Unmoved first) (no : Unmoved second) : Unmoved (if condition then first else second) := by
  split
  · exact yes
  · exact no

theorem Unmoved.same {call : Prog Disk Stop α} (unmoved : Unmoved call)
    (same : other.rewind = disk.rewind) : (call other).1 = (call disk).1 := by
  rw [(unmoved other).1, same, ← (unmoved disk).1]

theorem Unmoved.bind {call : Prog Disk Stop α} {next : α → Prog Disk Stop β} (first : Unmoved call)
    (rest : ∀ result, Unmoved (next result)) : Unmoved (call >>= next) := by
  intro disk
  obtain ⟨result, kept⟩ := first disk
  have again := (first disk.rewind).2
  rw [Disk.rewind_rewind] at again
  rw [bind_run, bind_run]
  generalize call disk.rewind = other at result again
  obtain ⟨outcome', after'⟩ := other
  generalize call disk = here at result kept
  obtain ⟨outcome, after⟩ := here
  obtain rfl : outcome = outcome' := result
  cases outcome with
  | error reason => exact ⟨rfl, kept⟩
  | ok value =>
    refine ⟨(rest value).same (kept.trans again.symm), ?_⟩
    exact ((rest value after).2).trans kept

theorem diskstreamerRead_rewind {image : Image} {stream after : DiskStream} {total res : Int}
    {out : List Byte} (run : diskstreamerRead image stream total = some (res, out, after)) :
    after.rewind = stream.rewind := by
  unfold diskstreamerRead at run
  rw [Option.map_eq_some_iff] at run
  obtain ⟨⟨_, _, pos⟩, _, same⟩ := run
  cases same
  rfl

theorem fsPrivate_run (here : disk.fsPrivate = some fatPrivate) :
    fsPrivate disk = (.ok fatPrivate, disk) := by
  unfold fsPrivate
  rw [read_bind, here]
  rfl

theorem fsPrivate_none (here : disk.fsPrivate = none) : fsPrivate disk = (.error .fault, disk) := by
  unfold fsPrivate
  rw [read_bind, here]
  rfl

theorem streamReadAt_run (stream : DiskStream) (keep : DiskStream → FatPrivate → FatPrivate)
    (pos total : Int) (disk : Disk) : streamReadAt (some stream) keep pos total disk =
      match diskstreamerRead disk.image (diskstreamerSeek stream pos) total with
      | none => (.error .fault, disk)
      | some (res, out, stream) => (.ok (res, out), disk.withPrivate (keep stream)) := by
  unfold streamReadAt
  dsimp only
  rw [read_bind]
  cases diskstreamerRead disk.image (diskstreamerSeek stream pos) total with
  | none => rfl
  | some result => rfl

/-- Where `fat16_get_fat_entry` looks for the entry of a cluster. -/
def fatEntryPosition (disk : Disk) (fatPrivate : FatPrivate) (cluster : Int) : Int :=
  (fat16GetFirstFatSector fatPrivate * BitVec.ofInt 32 disk.sectorSize *
    BitVec.ofInt 32 (cluster * peachosFat16FatEntrySize)).toInt

theorem fat16GetFatEntry_run (cluster : Int) (here : disk.fsPrivate = some fatPrivate) :
    fat16GetFatEntry cluster disk =
      match fatPrivate.fatReadStream with
      | none => (.ok (-1), disk)
      | some stream =>
          match diskstreamerRead disk.image (diskstreamerSeek stream
            (fatEntryPosition disk fatPrivate cluster)) 2 with
          | none => (.error .fault, disk)
          | some (res, out, stream) => (.ok (if res < 0 then res else halfWord out),
              disk.withPrivate (fun volume => { volume with fatReadStream := some stream })) := by
  unfold fat16GetFatEntry
  rw [bind_ok (fsPrivate_run here)]
  cases stream : fatPrivate.fatReadStream with
  | none => rfl
  | some stream' =>
    rw [if_neg (by simp), read_bind]
    unfold fatReadAt fatEntryPosition
    rw [stream, bind_run, streamReadAt_run]
    dsimp only
    cases diskstreamerRead disk.image _ 2 with
    | none => rfl
    | some result =>
      dsimp only
      split
      · rfl
      · rfl

theorem Unmoved.fat16GetFatEntry (cluster : Int) : Unmoved (fat16GetFatEntry cluster) := by
  intro disk
  cases here : disk.fsPrivate with
  | none =>
    have still : disk.rewind.fsPrivate = none := congrArg (Option.map FatPrivate.rewind) here
    unfold PeachOS.fat16GetFatEntry
    rw [bind_error (fsPrivate_none here), bind_error (fsPrivate_none still)]
    exact ⟨rfl, rfl⟩
  | some fatPrivate =>
    have still : disk.rewind.fsPrivate = some fatPrivate.rewind :=
      congrArg (Option.map FatPrivate.rewind) here
    rw [fat16GetFatEntry_run cluster here, fat16GetFatEntry_run cluster still]
    cases stream : fatPrivate.fatReadStream with
    | none =>
      have none' : fatPrivate.rewind.fatReadStream = none := congrArg (Option.map _) stream
      rw [none']
      exact ⟨rfl, rfl⟩
    | some opened =>
      have some' : fatPrivate.rewind.fatReadStream = some opened.rewind := congrArg (Option.map _) stream
      have same : diskstreamerRead disk.rewind.image (diskstreamerSeek opened.rewind
            (fatEntryPosition disk.rewind fatPrivate.rewind cluster)) 2 =
          diskstreamerRead disk.image (diskstreamerSeek opened (fatEntryPosition disk fatPrivate cluster)) 2 :=
        rfl
      rw [some']
      dsimp only
      rw [same]
      cases read : diskstreamerRead disk.image
        (diskstreamerSeek opened (fatEntryPosition disk fatPrivate cluster)) 2 with
      | none => exact ⟨rfl, rfl⟩
      | some result =>
        obtain ⟨res, out, after⟩ := result
        refine ⟨rfl, ?_⟩
        have kept := diskstreamerRead_rewind read
        unfold Disk.rewind Disk.withPrivate
        dsimp only
        rw [here]
        unfold FatPrivate.rewind
        dsimp only [Option.map_some]
        rw [kept, stream]
        rfl

theorem Unmoved.clusterLoop (remaining : Nat) (cluster : Int) :
    Unmoved (fat16GetClusterForOffsetLoop remaining cluster) := by
  induction remaining generalizing cluster with
  | zero => exact Unmoved.pure cluster
  | succ remaining ih =>
    apply Unmoved.bind (Unmoved.fat16GetFatEntry cluster)
    intro entry
    exact (Unmoved.pure _).ite ((Unmoved.pure _).ite ((Unmoved.pure _).ite ((Unmoved.pure _).ite (ih entry))))

theorem Unmoved.fat16GetClusterForOffset (cluster offset : Int) :
    Unmoved (fat16GetClusterForOffset cluster offset) := by
  intro disk
  unfold PeachOS.fat16GetClusterForOffset
  cases here : disk.fsPrivate with
  | none =>
    have still : disk.rewind.fsPrivate = none := congrArg (Option.map FatPrivate.rewind) here
    rw [bind_error (fsPrivate_none here), bind_error (fsPrivate_none still)]
    exact ⟨rfl, rfl⟩
  | some fatPrivate =>
    have still : disk.rewind.fsPrivate = some fatPrivate.rewind :=
      congrArg (Option.map FatPrivate.rewind) here
    rw [bind_ok (fsPrivate_run here), bind_ok (fsPrivate_run still), read_bind, read_bind]
    exact ((Unmoved.stop _).ite (Unmoved.clusterLoop _ cluster)) disk

end Rewind

/-- The numbers that data clusters have. -/
def DataCluster (entry : Int) : Prop := 2 ≤ entry ∧ entry ≤ 0xFFEF

/-- The entries at which the walk stops. -/
def EntryRefused (entry : Int) : Prop :=
  entry = 0xFF8 ∨ entry = 0xFFF ∨ entry = peachosFat16BadSector ∨ entry = 0xFF0 ∨ entry = 0xFF6 ∨
    entry = 0

instance : DecidablePred EntryRefused := fun entry =>
  inferInstanceAs (Decidable (entry = 0xFF8 ∨ entry = 0xFFF ∨ entry = peachosFat16BadSector ∨
    entry = 0xFF0 ∨ entry = 0xFF6 ∨ entry = 0))

/-- What `fat16_get_fat_entry` returns on a walk of `ahead` steps is what `table` has. -/
def AnswersTable (disk : Disk) (table : Int → Int) (start : Int) (ahead : Nat) : Prop :=
  ∀ i < ahead, (fat16GetFatEntry (table^[i] start) disk).1 = .ok (table^[i + 1] start)

/-- The cluster `ahead` steps after `start` is found if there is one, and otherwise the
error is reported. -/
structure FindsCluster (disk : Disk) (table : Int → Int) (start offset : Int) (ahead : Nat) : Prop where
  successor : (∀ i < ahead, DataCluster (table^[i + 1] start)) →
    (fat16GetClusterForOffset start offset disk).1 = .ok (table^[ahead] start)
  refused : (∃ i < ahead, ¬DataCluster (table^[i + 1] start)) →
    (fat16GetClusterForOffset start offset disk).1 = .ok (- EIO)

/-- The walk ends with the error at its step `i`: the entry is refused, or it is that error
itself and the last one. -/
def WalkFails (table : Int → Int) (start : Int) (ahead i : Nat) : Prop :=
  EntryRefused (table^[i + 1] start) ∨ i + 1 = ahead ∧ table^[i + 1] start = - EIO

section Walk
variable {disk other : Disk} {fatPrivate : FatPrivate} {table : Int → Int} {start offset : Int}
  {ahead : Nat}

theorem AnswersTable.first (answers : AnswersTable disk table start (ahead + 1)) :
    (fat16GetFatEntry start disk).1 = .ok (table start) :=
  answers 0 (Nat.succ_pos ahead)

theorem AnswersTable.rest (answers : AnswersTable disk table start (ahead + 1))
    (same : other.rewind = disk.rewind) : AnswersTable other table (table start) ahead := by
  intro i bound
  have here := answers (i + 1) (Nat.succ_lt_succ bound)
  rw [(Unmoved.fat16GetFatEntry _).same same]
  exact here

theorem fat16GetClusterForOffsetLoop_step (ahead : Nat) {entry : Int}
    (found : (fat16GetFatEntry start disk).1 = .ok entry) :
    (EntryRefused entry → fat16GetClusterForOffsetLoop (ahead + 1) start disk =
      (.ok (- EIO), (fat16GetFatEntry start disk).2)) ∧
    (¬EntryRefused entry → fat16GetClusterForOffsetLoop (ahead + 1) start disk =
      fat16GetClusterForOffsetLoop ahead entry (fat16GetFatEntry start disk).2) := by
  have step : fat16GetClusterForOffsetLoop (ahead + 1) start disk = _ := bind_ok (run_of_result found)
  rw [step]
  constructor
  · intro refused
    rcases refused with rfl | rfl | rfl | rfl | rfl | rfl <;> rfl
  · intro followed
    unfold EntryRefused at followed
    push Not at followed
    obtain ⟨last, lastToo, bad, reserved, reservedToo, free⟩ := followed
    rw [if_neg (not_or.mpr ⟨last, lastToo⟩), if_neg bad, if_neg (not_or.mpr ⟨reserved, reservedToo⟩),
      if_neg free]

/-- The result of the walk: the error at the first entry that is refused, else the last one. -/
theorem fat16GetClusterForOffsetLoop_result (answers : AnswersTable disk table start ahead) :
    ((∃ i < ahead, EntryRefused (table^[i + 1] start)) →
      (fat16GetClusterForOffsetLoop ahead start disk).1 = .ok (- EIO)) ∧
    ((∀ i < ahead, ¬EntryRefused (table^[i + 1] start)) →
      (fat16GetClusterForOffsetLoop ahead start disk).1 = .ok (table^[ahead] start)) := by
  induction ahead generalizing disk start with
  | zero => exact ⟨fun ⟨i, bound, _⟩ => absurd bound (Nat.not_lt_zero i), fun _ => rfl⟩
  | succ ahead ih =>
    obtain ⟨stops, goes⟩ := fat16GetClusterForOffsetLoop_step ahead answers.first
    obtain ⟨restStops, restGoes⟩ := ih (answers.rest (Unmoved.fat16GetFatEntry start disk).2)
    constructor
    · rintro ⟨i, bound, refused⟩
      by_cases here : EntryRefused (table start)
      · rw [stops here]
      · rw [goes here]
        cases i with
        | zero => exact absurd refused here
        | succ i => exact restStops ⟨i, Nat.lt_of_succ_lt_succ bound, refused⟩
    · intro followed
      rw [goes (followed 0 (Nat.succ_pos ahead))]
      exact restGoes (fun i bound => followed (i + 1) (Nat.succ_lt_succ bound))

theorem fat16GetClusterForOffset_loop (start : Int) (here : disk.fsPrivate = some fatPrivate)
    (size : 0 < sizeOfClusterBytes disk fatPrivate) (positive : 0 ≤ offset) :
    fat16GetClusterForOffset start offset disk =
      fat16GetClusterForOffsetLoop (offset / sizeOfClusterBytes disk fatPrivate).toNat start disk := by
  unfold fat16GetClusterForOffset
  rw [bind_ok (fsPrivate_run here), read_bind, if_neg (by omega), Int.tdiv_eq_ediv_of_nonneg positive]

/-- The walk is right if and only if it fails just where an entry is no data cluster: the
constants that it compares with are those of a FAT with entries of 12 bits. -/
theorem fat16GetClusterForOffset_finds (here : disk.fsPrivate = some fatPrivate)
    (size : 0 < sizeOfClusterBytes disk fatPrivate) (positive : 0 ≤ offset)
    (steps : ahead = (offset / sizeOfClusterBytes disk fatPrivate).toNat)
    (answers : AnswersTable disk table start ahead) :
    FindsCluster disk table start offset ahead ↔
      ((∃ i < ahead, WalkFails table start ahead i) ↔
        ∃ i < ahead, ¬DataCluster (table^[i + 1] start)) := by
  obtain ⟨stops, goes⟩ := fat16GetClusterForOffsetLoop_result answers
  have run := congrArg Prod.fst (fat16GetClusterForOffset_loop start here size positive)
  rw [← steps] at run
  rw [← run] at stops goes
  -- a data cluster is not the error code
  have distinct : ∀ entry, DataCluster entry → entry ≠ - EIO := by
    intro entry data same
    have low := data.1
    rw [same] at low
    exact absurd low (by decide)
  by_cases refused : ∃ i < ahead, EntryRefused (table^[i + 1] start)
  · have failed := stops refused
    have fails : ∃ i < ahead, WalkFails table start ahead i := by
      obtain ⟨i, bound, here⟩ := refused
      exact ⟨i, bound, Or.inl here⟩
    constructor
    · intro finds
      refine ⟨fun _ => ?_, fun _ => fails⟩
      by_contra data
      push Not at data
      have found := failed.symm.trans (finds.successor data)
      obtain ⟨i, bound, _⟩ := refused
      have last := distinct _ (data (ahead - 1) (by omega))
      rw [Nat.sub_add_cancel (by omega)] at last
      exact last (Except.ok.inj found).symm
    · intro same
      obtain ⟨i, bound, bad⟩ := same.mp fails
      exact ⟨fun data => absurd (data i bound) bad, fun _ => failed⟩
  · push Not at refused
    have found := goes refused
    constructor
    · intro finds
      constructor
      · rintro ⟨i, bound, here | ⟨last, error⟩⟩
        · exact absurd here (refused i bound)
        · exact ⟨i, bound, fun data => distinct _ data error⟩
      · rintro ⟨i, bound, bad⟩
        have error := Except.ok.inj (found.symm.trans (finds.refused ⟨i, bound, bad⟩))
        refine ⟨ahead - 1, by omega, Or.inr ⟨by omega, ?_⟩⟩
        rw [Nat.sub_add_cancel (by omega)]
        exact error
    · intro same
      refine ⟨fun _ => found, fun bad => ?_⟩
      obtain ⟨i, bound, here | ⟨last, error⟩⟩ := same.mpr bad
      · exact absurd here (refused i bound)
      · rw [last] at error
        rw [found, error]

end Walk

/-- A volume with clusters of one sector, the first one in sector 3. -/
def chainPrivate : FatPrivate :=
  ⟨⟨1, 1, 1, 16, 1, 0x29⟩, ⟨0x01000000, 1, 2, 3⟩, some ⟨0, 0⟩, some ⟨0, 0⟩, some ⟨0, 0⟩⟩

/-- A disk whose FAT has `entry` where the driver looks for the entry of cluster 2. -/
def chainDisk (entry : Nat) : Disk where
  image := fun pos =>
    if pos = 2048 then BitVec.ofNat 8 entry else if pos = 2049 then BitVec.ofNat 8 (entry / 256) else 0
  sectorSize := 512
  filesystem := true
  fsPrivate := some chainPrivate

theorem chainDisk_answers : AnswersTable (chainDisk 4) (fun _ => 4) 2 1 ∧
    AnswersTable (chainDisk 0xFFFF) (fun _ => 0xFFFF) 2 1 := by
  constructor
  all_goals
    intro i bound
    obtain rfl : i = 0 := by omega
    decide +kernel

/-- The cluster after the first one is found. -/
theorem fat16GetClusterForOffset_finds_next : FindsCluster (chainDisk 4) (fun _ => 4) 2 512 1 := by
  have size : sizeOfClusterBytes (chainDisk 4) chainPrivate = 512 := by decide
  refine (fat16GetClusterForOffset_finds rfl (size ▸ by decide) (by decide) (by decide)
    chainDisk_answers.1).mpr ⟨?_, ?_⟩
  · rintro ⟨i, bound, fails⟩
    obtain rfl : i = 0 := by omega
    rcases fails with refused | ⟨_, error⟩
    · exact absurd refused (by decide)
    · exact absurd error (by decide)
  · rintro ⟨i, bound, bad⟩
    obtain rfl : i = 0 := by omega
    exact absurd ⟨by decide, by decide⟩ bad

/-- The mark of the end of a chain is taken for the cluster after it. -/
theorem fat16GetClusterForOffset_follows_end : ∃ disk fatPrivate table offset,
    disk.fsPrivate = some fatPrivate ∧ sizeOfClusterBytes disk fatPrivate = 512 ∧ offset = 512 ∧
      AnswersTable disk table 2 1 ∧ table 2 = 0xFFFF ∧
      (fat16GetClusterForOffset 2 offset disk).1 = .ok 0xFFFF ∧ ¬FindsCluster disk table 2 offset 1 := by
  have followed : (fat16GetClusterForOffset 2 512 (chainDisk 0xFFFF)).1 = .ok 0xFFFF := by decide +kernel
  refine ⟨chainDisk 0xFFFF, _, fun _ => 0xFFFF, 512, rfl, by decide, rfl, chainDisk_answers.2, rfl, followed, ?_⟩
  intro finds
  have failed := finds.refused ⟨0, by decide, fun data => absurd data.2 (by decide)⟩
  rw [followed] at failed
  exact absurd (Except.ok.inj failed) (by decide)

end PeachOS
