import PeachOS.Fat16File
import PeachOS.FileVolume
import PeachOS.Lib.Run

/-! The position of an open file under `fseek` and `fread`. Reading does not move it, and
`SEEK_CUR` checks the offset alone. -/

namespace PeachOS
open Program ByteMemory Transition Search

/-- A call on an open file. -/
inductive StreamCall where
  | seek (offset : Int) (whence : FileSeekMode)
  | read (ptr : Addr) (size nmemb : Word)

def StreamCall.run (fd : Int) : StreamCall → KernelProg Int
  | .seek offset whence => fseek fd offset whence
  | .read ptr size nmemb => fread ptr size nmemb fd

/-- Where a call that succeeds takes a stream from `pos`. The end of the file cannot be sought. -/
def StreamCall.target (pos : Nat) : StreamCall → Option Nat
  | .seek offset .seekSet => some (BitVec.ofInt 32 offset).toNat
  | .seek offset .seekCur => some (pos + (BitVec.ofInt 32 offset).toNat)
  | .seek _ _ => none
  | .read _ size nmemb => some (pos + size.toNat * nmemb.toNat)

/-- The call moves the position of a file from `pos` to `next` as that of a stream. -/
structure Streams (call : StreamCall) (item : FatDirectoryItem) (before after : Kernel)
    (pos next : Word) (res : Int) : Prop where
  failed : res < 0 → next = pos
  moved : 0 ≤ res → call.target pos.toNat = some next.toNat
  delivered : ∀ ptr size nmemb, call = .read ptr size nmemb → 0 ≤ res → ∃ disk,
    fat16Read item pos size nmemb ptr before.memory.bytes before.disk =
      (.ok (res, after.memory.bytes), disk)
  bounded : next.toNat ≤ item.filesize.toNat

/-- The items are read one after the other until `fat16_read_internal` fails on one. -/
inductive Unreadable (item : FatDirectoryItem) (size : Word) :
    (remaining : Nat) → (offset : Word) → (out : Addr) → Bytes → Disk → Prop where
  | here {remaining : Nat} {offset : Word} {out : Addr} {bytes after : Bytes} {disk left : Disk}
      {res : Int}
      (run : fat16ReadInternal (fat16GetFirstCluster item).toInt offset.toInt size.toInt out bytes disk =
        (.ok (res, after), left)) (failed : res < 0) :
      Unreadable item size (remaining + 1) offset out bytes disk
  | later {remaining : Nat} {offset : Word} {out : Addr} {bytes after : Bytes} {disk left : Disk}
      {res : Int}
      (run : fat16ReadInternal (fat16GetFirstCluster item).toInt offset.toInt size.toInt out bytes disk =
        (.ok (res, after), left)) (passed : 0 ≤ res)
      (rest : Unreadable item size remaining (offset + size) (out + size) after left) :
      Unreadable item size (remaining + 1) offset out bytes disk

/-- A relative seek that is accepted stays in the file, and no read succeeds: it asks for
nothing, for more items than an `int` counts, or for some that cannot be read. -/
def StreamGuarded (kernel : Kernel) (item : FatDirectoryItem) (pos : Word) : StreamCall → Prop
  | .seek offset .seekCur => (BitVec.ofInt 32 offset).toNat < item.filesize.toNat →
      pos.toNat + (BitVec.ofInt 32 offset).toNat ≤ item.filesize.toNat
  | .seek _ _ => True
  | .read ptr size nmemb => size = 0 ∨ nmemb = 0 ∨ 2 ^ 31 ≤ nmemb.toNat ∨
      Unreadable item size nmemb.toNat pos ptr kernel.memory.bytes kernel.disk

section ReadLoop
variable {item : FatDirectoryItem} {size offset : Word} {remaining : Nat} {out : Addr}
  {bytes after : Bytes} {disk left : Disk} {res : Int}

/-- The loop ends with an error if and only if an item cannot be read. -/
theorem fat16ReadLoop_unreadable
    (run : fat16ReadLoop item size remaining offset out bytes disk = (.ok (res, after), left)) :
    (res < 0 ↔ Unreadable item size remaining offset out bytes disk) ∧ (0 ≤ res → res = 0) := by
  induction remaining generalizing offset out bytes disk with
  | zero =>
    cases run
    exact ⟨⟨fun negative => absurd negative (by decide), fun impossible => by cases impossible⟩,
      fun _ => rfl⟩
  | succ remaining ih =>
    obtain ⟨⟨first, chunk⟩, middle, item', rest⟩ := bind_eq_ok run
    dsimp only at rest
    by_cases failed : first < 0
    · rw [if_pos failed] at rest
      cases rest
      exact ⟨⟨fun _ => .here item' failed, fun _ => failed⟩, fun passed => by omega⟩
    · rw [if_neg failed] at rest
      obtain ⟨same, zero⟩ := ih rest
      refine ⟨same.trans ⟨fun unread => .later item' (by omega) unread, fun unread => ?_⟩, zero⟩
      cases unread with
      | here other negative =>
        rw [item'] at other
        cases other
        exact absurd negative failed
      | later other passed tail =>
        rw [item'] at other
        cases other
        exact tail

end ReadLoop

/-- The result of `fat16_seek` and the position after it. -/
def seekResult (item : FatDirectoryItem) (pos offset : Word) (whence : FileSeekMode) : Int × Word :=
  if item.filesize.toNat ≤ offset.toNat then (- EIO, pos)
  else
    match whence with
    | .seekSet => (0, offset)
    | .seekCur => (0, pos + offset)
    | .seekEnd => (- EUNIMP, pos)
    | .other => (- EINVARG, pos)

section Calls
variable {kernel after : Kernel} {fd : Int} {privateData : Addr} {item : FatDirectoryItem} {pos : Word}

theorem StreamFile.looked (file : StreamFile kernel fd privateData item pos) :
    ∃ record, fileGetDescriptor kernel fd ≠ 0 ∧
      Kernel.record FileRecord.asFileDescriptor (fileGetDescriptor kernel fd) kernel =
        (.ok record, kernel) ∧
      record.filesystem = true ∧ record.privateData = privateData := by
  obtain ⟨record, nonnull, recorded, _, rest⟩ := file.opened
  exact ⟨record, nonnull, Kernel.record_run recorded rfl, rest⟩

theorem StreamFile.followed (file : StreamFile kernel fd privateData item pos) :
    ∃ fItem clone, Kernel.record FileRecord.asFatFileDescriptor privateData kernel =
        (.ok ⟨fItem, pos⟩, kernel) ∧
      Kernel.record FileRecord.asFatItem fItem kernel = (.ok ⟨clone, .file⟩, kernel) ∧
      Kernel.record FileRecord.asFatDirectoryItem clone kernel = (.ok item, kernel) ∧
      ∀ next, ∃ after, Kernel.writeRecord FileRecord.asFatFileDescriptor privateData
          (.fatFileDescriptor ⟨fItem, next⟩) kernel = (.ok (), after) ∧
        StreamFile after fd privateData item next := by
  obtain ⟨record, nonnull, recorded, rest⟩ := file.opened
  obtain ⟨fItem, clone, descriptor, found⟩ := file.file
  refine ⟨fItem, clone, Kernel.record_run descriptor rfl, Kernel.record_run found.node rfl,
    Kernel.record_run found.entry rfl, fun next => ?_⟩
  have kept : ∀ ptr other, kernel.files ptr = some other →
      other.asFatFileDescriptor = none →
        Function.update kernel.files privateData (some (.fatFileDescriptor ⟨fItem, next⟩)) ptr =
          some other := by
    intro ptr other here kind
    rw [Function.update_of_ne, here]
    intro equal
    rw [equal, descriptor] at here
    rw [← Option.some.inj here] at kind
    cases kind
  exact ⟨_, Kernel.writeRecord_run FileRecord.asFatFileDescriptor descriptor rfl _,
    ⟨record, nonnull, kept _ _ recorded rfl, rest⟩, fItem, clone,
    Function.update_self _ _ _, kept _ _ found.node rfl, kept _ _ found.entry rfl⟩

theorem StreamFile.fclose_run (file : StreamFile kernel fd privateData item pos) :
    ∃ after, fclose fd kernel = (.ok 0, after) := by
  obtain ⟨record, nonnull, recorded, index, filesystem, same⟩ := file.opened
  obtain ⟨fItem, clone, descriptor, found⟩ := file.file
  have range : ¬(fd ≤ 0 ∨ (peachosMaxFileDescriptors : Int) ≤ fd) := by
    intro outside
    exact nonnull (if_pos outside)
  have looked : Kernel.record FileRecord.asFileDescriptor (fileGetDescriptor kernel fd) kernel =
      (.ok record, kernel) := Kernel.record_run recorded rfl
  have position : Kernel.record FileRecord.asFatFileDescriptor privateData kernel =
      (.ok ⟨fItem, pos⟩, kernel) := Kernel.record_run descriptor rfl
  have node : Kernel.record FileRecord.asFatItem fItem kernel = (.ok ⟨clone, .file⟩, kernel) :=
    Kernel.record_run found.node rfl
  -- each release leaves the records of the kinds that are released after it
  have other : ∀ {ptr ptr' : Addr} {first second : FileRecord}, kernel.files ptr = some first →
      kernel.files ptr' = some second → first ≠ second → ptr' ≠ ptr := by
    rintro ptr ptr' first second here there different rfl
    exact different (Option.some.inj (here.symm.trans there))
  obtain ⟨entryFreed, freeEntry, entryKept⟩ :=
    Kernel.freeRecord_run FileRecord.asFatDirectoryItem found.entry rfl
  have nodeStill := (entryKept _ (other found.entry found.node (by simp))).trans found.node
  obtain ⟨nodeFreed, freeNode, nodeKept⟩ :=
    Kernel.freeRecord_run FileRecord.asFatItem nodeStill rfl
  have descriptorStill := (nodeKept _ (other found.node descriptor (by simp))).trans
    ((entryKept _ (other found.entry descriptor (by simp))).trans descriptor)
  obtain ⟨closed, freeDescriptor, descriptorKept⟩ :=
    Kernel.freeRecord_run FileRecord.asFatFileDescriptor descriptorStill rfl
  have recordStill := (descriptorKept _ (other descriptor recorded (by simp))).trans
    ((nodeKept _ (other found.node recorded (by simp))).trans
      ((entryKept _ (other found.entry recorded (by simp))).trans recorded))
  have cleared : (closed.setFileDescriptor (fd - 1).toNat 0).files (fileGetDescriptor kernel fd) =
      some (.fileDescriptor record) := recordStill
  obtain ⟨after, freeRecord, _⟩ :=
    Kernel.freeRecord_run FileRecord.asFileDescriptor cleared rfl
  have itemFreed : fat16FatItemFree fItem kernel = (.ok (), nodeFreed) := by
    unfold fat16FatItemFree
    rw [bind_ok node]
    exact (bind_ok freeEntry).trans freeNode
  have freed : fat16Close privateData kernel = (.ok 0, closed) := by
    have released : fat16FreeFileDescriptor privateData kernel = (.ok (), closed) := by
      unfold fat16FreeFileDescriptor
      rw [bind_ok position, bind_ok itemFreed]
      exact freeDescriptor
    unfold fat16Close
    rw [bind_ok released]
    rfl
  have lookedAgain : Kernel.record FileRecord.asFileDescriptor (fileGetDescriptor kernel fd) closed =
      (.ok record, closed) := Kernel.record_run recordStill rfl
  have dropped : fileFreeDescriptor (fileGetDescriptor kernel fd) closed = (.ok (), after) := by
    unfold fileFreeDescriptor
    rw [bind_ok lookedAgain, index, if_neg (by omega), update_bind]
    exact freeRecord
  refine ⟨after, ?_⟩
  unfold fclose
  rw [read_bind, if_neg nonnull, bind_ok looked, filesystem, same]
  show (fat16Close privateData >>= _) kernel = _
  rw [bind_ok freed, if_pos rfl, bind_ok dropped]
  rfl

theorem StreamFile.fseek_run (file : StreamFile kernel fd privateData item pos) (offset : Int)
    (whence : FileSeekMode) :
    ∃ after, fseek fd offset whence kernel =
        (.ok (seekResult item pos (BitVec.ofInt 32 offset) whence).1, after) ∧
      StreamFile after fd privateData item (seekResult item pos (BitVec.ofInt 32 offset) whence).2 := by
  obtain ⟨record, nonnull, recorded, filesystem, same⟩ := file.looked
  obtain ⟨fItem, clone, descriptor, node, entry, write⟩ := file.followed
  have called : fseek fd offset whence kernel =
      fat16Seek privateData (BitVec.ofInt 32 offset) whence kernel := by
    unfold fseek
    rw [read_bind, if_neg nonnull, bind_ok recorded, filesystem, same]
    rfl
  generalize BitVec.ofInt 32 offset = offset at *
  rw [called]
  unfold fat16Seek seekResult
  rw [bind_ok descriptor, bind_ok node, if_neg (not_not.mpr rfl), bind_ok entry]
  by_cases outside : item.filesize.toNat ≤ offset.toNat
  · rw [if_pos outside, if_pos outside]
    exact ⟨kernel, rfl, file⟩
  · rw [if_neg outside, if_neg outside]
    cases whence with
    | seekSet =>
      obtain ⟨after, written, moved⟩ := write offset
      exact ⟨after, bind_ok written, moved⟩
    | seekCur =>
      obtain ⟨after, written, moved⟩ := write (pos + offset)
      exact ⟨after, bind_ok written, moved⟩
    | seekEnd => exact ⟨kernel, rfl, file⟩
    | other => exact ⟨kernel, rfl, file⟩

theorem StreamFile.fstat_run (file : StreamFile kernel fd privateData item pos) (stat : FileStat) :
    fstat fd stat kernel = (.ok (0, ⟨if item.itemAttribute &&& fatFileReadOnly ≠ 0 then fileStatReadOnly
      else 0, item.filesize⟩), kernel) := by
  obtain ⟨record, nonnull, recorded, filesystem, same⟩ := file.looked
  obtain ⟨fItem, clone, descriptor, node, entry, _⟩ := file.followed
  have called : fstat fd stat kernel = fat16Stat privateData stat kernel := by
    unfold fstat
    rw [read_bind, if_neg nonnull, bind_ok recorded, filesystem, same]
    rfl
  rw [called]
  unfold fat16Stat
  rw [bind_ok descriptor, bind_ok node, if_neg (not_not.mpr rfl), bind_ok entry]
  rfl

theorem StreamFile.congr (file : StreamFile kernel fd privateData item pos)
    (files : after.files = kernel.files) (table : after.fileDescriptors = kernel.fileDescriptors) :
    StreamFile after fd privateData item pos := by
  have slot : fileGetDescriptor after fd = fileGetDescriptor kernel fd := by
    unfold fileGetDescriptor
    rw [table]
  obtain ⟨record, nonnull, recorded, rest⟩ := file.opened
  obtain ⟨fItem, clone, descriptor, found⟩ := file.file
  refine ⟨⟨record, by rw [slot]; exact nonnull, by rw [slot, files]; exact recorded, rest⟩, fItem, clone, ?_, ?_, ?_⟩
  · rw [files]
    exact descriptor
  · rw [files]
    exact found.node
  · rw [files]
    exact found.entry

theorem StreamFile.fread_eq (file : StreamFile kernel fd privateData item pos) (ptr : Addr)
    {size nmemb : Word} (something : ¬(size = 0 ∨ nmemb = 0)) :
    fread ptr size nmemb fd kernel = Kernel.fat16Read privateData size nmemb ptr kernel := by
  obtain ⟨record, nonnull, recorded, filesystem, same⟩ := file.looked
  have accepted : ¬(size = 0 ∨ nmemb = 0 ∨ fd < 1) := by
    have positive : ¬fd < 1 := by
      intro low
      apply nonnull
      unfold fileGetDescriptor
      rw [if_pos (by omega)]
    tauto
  unfold fread
  rw [if_neg accepted, read_bind, if_neg nonnull, bind_ok recorded, filesystem, same]
  rfl

theorem StreamFile.fat16Read_eq (file : StreamFile kernel fd privateData item pos) (ptr : Addr)
    (size nmemb : Word) : Kernel.fat16Read privateData size nmemb ptr kernel =
      match fat16Read item pos size nmemb ptr kernel.memory.bytes kernel.disk with
      | (.ok (res, bytes), disk) => (.ok res,
          { kernel with memory := { kernel.memory with bytes := bytes }, disk := disk })
      | (.error stop, disk) => (.error stop, { kernel with disk := disk }) := by
  obtain ⟨fItem, clone, descriptor, node, entry, _⟩ := file.followed
  unfold Kernel.fat16Read
  rw [bind_ok descriptor, bind_ok node, bind_ok entry, read_bind, bind_run]
  unfold Kernel.onDisk
  dsimp only
  generalize fat16Read item pos size nmemb ptr kernel.memory.bytes kernel.disk = result
  obtain ⟨outcome, disk⟩ := result
  cases outcome with
  | ok value => rfl
  | error stop => rfl

theorem StreamFile.fread_ok (file : StreamFile kernel fd privateData item pos) {ptr : Addr}
    {size nmemb : Word} {res : Int} (run : fread ptr size nmemb fd kernel = (.ok res, after)) :
    StreamFile after fd privateData item pos ∧
      (((size = 0 ∨ nmemb = 0) ∧ res < 0) ∨
        ¬(size = 0 ∨ nmemb = 0) ∧ ∃ disk,
          fat16Read item pos size nmemb ptr kernel.memory.bytes kernel.disk =
            (.ok (res, after.memory.bytes), disk)) := by
  by_cases nothing : size = 0 ∨ nmemb = 0
  · have refused : size = 0 ∨ nmemb = 0 ∨ fd < 1 := by tauto
    unfold fread at run
    rw [if_pos refused] at run
    cases run
    exact ⟨file, Or.inl ⟨nothing, by decide⟩⟩
  · rw [file.fread_eq ptr nothing, file.fat16Read_eq] at run
    generalize same : fat16Read item pos size nmemb ptr kernel.memory.bytes kernel.disk = result at run
    obtain ⟨outcome, disk⟩ := result
    cases outcome with
    | ok value =>
      cases run
      exact ⟨file.congr rfl rfl, Or.inr ⟨nothing, disk, rfl⟩⟩
    | error stop => cases run

theorem fat16Read_result {item : FatDirectoryItem} {size nmemb : Word} {out : Addr}
    {bytes last : Bytes} {disk left : Disk} {res : Int}
    (run : fat16Read item pos size nmemb out bytes disk = (.ok (res, last), left)) :
    (Unreadable item size nmemb.toNat pos out bytes disk ∧ res < 0) ∨
      (¬Unreadable item size nmemb.toNat pos out bytes disk ∧ res = nmemb.toInt) := by
  unfold fat16Read at run
  obtain ⟨⟨result, stored⟩, middle, loop, rest⟩ := bind_eq_ok run
  obtain ⟨failed, _⟩ := fat16ReadLoop_unreadable loop
  dsimp only at rest
  by_cases negative : result < 0
  · rw [if_pos negative] at rest
    cases rest
    exact Or.inl ⟨failed.mp negative, negative⟩
  · rw [if_neg negative] at rest
    cases rest
    exact Or.inr ⟨fun unread => negative (failed.mpr unread), rfl⟩

theorem Streams.of_failed {call : StreamCall} {res : Int} (negative : res < 0)
    (inside : pos.toNat ≤ item.filesize.toNat) : Streams call item kernel after pos pos res where
  failed := fun _ => rfl
  moved := fun success => absurd success (by omega)
  delivered := fun _ _ _ _ success => absurd success (by omega)
  bounded := inside

theorem Streams.of_sought {offset : Int} {whence : FileSeekMode} {next : Word}
    (target : (StreamCall.seek offset whence).target pos.toNat = some next.toNat)
    (inside : next.toNat ≤ item.filesize.toNat) :
    Streams (.seek offset whence) item kernel after pos next 0 where
  failed := fun impossible => absurd impossible (by decide)
  moved := fun _ => target
  delivered := fun _ _ _ impossible => by cases impossible
  bounded := inside

theorem seekResult_streams (inside : pos.toNat ≤ item.filesize.toNat) (offset : Int)
    (whence : FileSeekMode) :
    Streams (.seek offset whence) item kernel after pos
        (seekResult item pos (BitVec.ofInt 32 offset) whence).2
        (seekResult item pos (BitVec.ofInt 32 offset) whence).1 ↔
      StreamGuarded kernel item pos (.seek offset whence) := by
  unfold seekResult
  by_cases outside : item.filesize.toNat ≤ (BitVec.ofInt 32 offset).toNat
  · rw [if_pos outside]
    refine ⟨fun _ => ?_, fun _ => Streams.of_failed (show - EIO < 0 by decide) inside⟩
    cases whence with
    | seekCur => exact fun accepted => absurd accepted (by omega)
    | seekSet => trivial
    | seekEnd => trivial
    | other => trivial
  · rw [if_neg outside]
    cases whence with
    | seekSet => exact ⟨fun _ => trivial, fun _ => Streams.of_sought rfl (by dsimp only; omega)⟩
    | seekCur =>
      have bound := item.filesize.isLt
      constructor
      · intro streams _
        have target := Option.some.inj (streams.moved (le_refl 0))
        rw [target]
        exact streams.bounded
      · intro guarded
        have fits := guarded (by omega)
        have sum : (pos + BitVec.ofInt 32 offset).toNat =
            pos.toNat + (BitVec.ofInt 32 offset).toNat := by
          rw [BitVec.toNat_add, Nat.mod_eq_of_lt (by omega)]
        exact Streams.of_sought (by rw [sum]; rfl) (by rw [sum]; exact fits)
    | seekEnd =>
      exact ⟨fun _ => trivial, fun _ => Streams.of_failed (show - EUNIMP < 0 by decide) inside⟩
    | other =>
      exact ⟨fun _ => trivial, fun _ => Streams.of_failed (show - EINVARG < 0 by decide) inside⟩

theorem StreamFile.read_streams (file : StreamFile kernel fd privateData item pos)
    (inside : pos.toNat ≤ item.filesize.toNat) {ptr : Addr} {size nmemb : Word} {res : Int}
    (run : fread ptr size nmemb fd kernel = (.ok res, after)) :
    StreamFile after fd privateData item pos ∧
      (Streams (.read ptr size nmemb) item kernel after pos pos res ↔
        StreamGuarded kernel item pos (.read ptr size nmemb)) := by
  obtain ⟨kept, outcome⟩ := file.fread_ok run
  refine ⟨kept, ?_⟩
  cases outcome with
  | inl refused =>
    refine ⟨fun _ => ?_, fun _ => Streams.of_failed refused.2 inside⟩
    cases refused.1 with
    | inl size => exact Or.inl size
    | inr nmemb => exact Or.inr (Or.inl nmemb)
  | inr served =>
    obtain ⟨something, disk, fileRead⟩ := served
    cases fat16Read_result fileRead with
    | inl unread =>
      exact ⟨fun _ => Or.inr (Or.inr (Or.inr unread.1)), fun _ => Streams.of_failed unread.2 inside⟩
    | inr readable =>
      obtain ⟨readable, rfl⟩ := readable
      by_cases many : 2 ^ 31 ≤ nmemb.toNat
      · have negative : nmemb.toInt < 0 := by
          rw [BitVec.toInt_eq_toNat_cond, if_neg (by omega)]
          have := nmemb.isLt
          omega
        exact ⟨fun _ => Or.inr (Or.inr (Or.inl many)), fun _ => Streams.of_failed negative inside⟩
      · have count : nmemb.toInt = nmemb.toNat := BitVec.toInt_eq_toNat_of_lt (by omega)
        constructor
        · intro streams
          -- a read that succeeds would have to move the position
          have target := Option.some.inj (streams.moved (by omega))
          have product : size.toNat * nmemb.toNat = 0 := by omega
          cases Nat.mul_eq_zero.mp product with
          | inl zero => exact absurd (Or.inl (BitVec.eq_of_toNat_eq zero)) something
          | inr zero => exact absurd (Or.inr (BitVec.eq_of_toNat_eq zero)) something
        · intro guarded
          rcases guarded with zero | zero | large | unread
          · exact absurd (Or.inl zero) something
          · exact absurd (Or.inr zero) something
          · exact absurd large many
          · exact absurd unread readable

theorem StreamFile.call_streams (file : StreamFile kernel fd privateData item pos)
    (inside : pos.toNat ≤ item.filesize.toNat) {call : StreamCall} {res : Int}
    (run : StreamCall.run fd call kernel = (.ok res, after)) :
    ∃ next, StreamFile after fd privateData item next ∧
      (Streams call item kernel after pos next res ↔ StreamGuarded kernel item pos call) := by
  cases call with
  | seek offset whence =>
    obtain ⟨_, result, moved⟩ := file.fseek_run offset whence
    have same := result.symm.trans run
    cases same
    exact ⟨_, moved, seekResult_streams inside offset whence⟩
  | read ptr size nmemb => exact ⟨pos, file.read_streams inside run⟩

theorem StreamFile.pos_unique {other : Word} (file : StreamFile kernel fd privateData item pos)
    (otherFile : StreamFile kernel fd privateData item other) : pos = other := by
  obtain ⟨fItem, _, here, _⟩ := file.file
  obtain ⟨_, _, there, _⟩ := otherFile.file
  rw [here] at there
  cases there
  rfl

end Calls

/-- A call that meets the condition, on the open file. -/
def StreamStep (fd : Int) (privateData : Addr) (item : FatDirectoryItem) (before after : Kernel) : Prop :=
  ∃ call pos res, StreamFile before fd privateData item pos ∧ StreamGuarded before item pos call ∧
    StreamCall.run fd call before = (.ok res, after)

/-- In every run of seeks and reads that all meet the condition the position of the file is
that of a stream; in every state such a run reaches, the next call keeps it so if and only
if it meets the condition. -/
theorem file_stream {start kernel : Kernel} {fd : Int} {privateData : Addr} {item : FatDirectoryItem}
    {pos : Word} (opened : StreamFile start fd privateData item pos)
    (inside : pos.toNat ≤ item.filesize.toNat)
    (run : Run (StreamStep fd privateData item) start kernel) :
    ∃ now, StreamFile kernel fd privateData item now ∧ now.toNat ≤ item.filesize.toNat ∧
      ∀ call res after, StreamCall.run fd call kernel = (.ok res, after) →
        ∃ next, StreamFile after fd privateData item next ∧
          (Streams call item kernel after now next res ↔ StreamGuarded kernel item now call) := by
  have reached := run.invariant
    (fun state => ∃ pos, StreamFile state fd privateData item pos ∧ pos.toNat ≤ item.filesize.toNat)
    (fun before after held step => by
      obtain ⟨pos, file, inside⟩ := held
      obtain ⟨call, other, res, otherFile, guarded, called⟩ := step
      obtain rfl : other = pos := otherFile.pos_unique file
      obtain ⟨next, moved, streams⟩ := file.call_streams inside called
      exact ⟨next, moved, (streams.mpr guarded).bounded⟩)
    ⟨pos, opened, inside⟩
  obtain ⟨now, file, inside⟩ := reached
  exact ⟨now, file, inside, fun call res after called => file.call_streams inside called⟩

theorem singleDisk_volume : Volume singleDisk singleDisk.image ⟨1, 1, 1, 16, 1, 0x29⟩ where
  content := rfl
  sector := rfl
  clusters := by decide
  rootEntries := by decide
  loaded := ⟨_, rfl, rfl, by decide, ⟨0, rfl⟩, ⟨0, rfl⟩⟩

theorem singleFile_opened : ∃ privateData opened, fopen [0x30, 0x3A, slash, 0x61] [0x72] singleKernel =
    (.ok 1, opened) ∧ StreamFile opened 1 privateData singleFile 0 ∧ opened.disk = singleDisk := by
  have free : firstIndex peachosMaxFileDescriptors
      (fun i => singleKernel.fileDescriptors i == 0) = some 0 :=
    firstIndex_eq (by decide) rfl (fun j earlier => absurd earlier (Nat.not_lt_zero j))
  obtain ⟨privateData, _, _, opened, _, run, _, _, _, _, disk, file⟩ :=
    fopen_single singleKernel_rootFile (by rw [singleKernel_room]; decide) free
  exact ⟨privateData, opened, run, file (by decide), disk⟩

theorem file_stream_seek : ∃ privateData opened sought,
    fopen [0x30, 0x3A, slash, 0x61] [0x72] singleKernel = (.ok 1, opened) ∧
      fseek 1 3 .seekSet opened = (.ok 0, sought) ∧ ∃ pos,
        StreamFile sought 1 privateData singleFile pos ∧ pos.toNat ≤ 5 ∧
          ∀ call res after, StreamCall.run 1 call sought = (.ok res, after) →
            ∃ next, StreamFile after 1 privateData singleFile next ∧
              (Streams call singleFile sought after pos next res ↔
                StreamGuarded sought singleFile pos call) := by
  obtain ⟨privateData, opened, run, file, _⟩ := singleFile_opened
  obtain ⟨sought, seek, _⟩ := file.fseek_run 3 .seekSet
  have step : StreamStep 1 privateData singleFile opened sought :=
    ⟨.seek 3 .seekSet, 0, _, file, trivial, seek⟩
  exact ⟨privateData, opened, sought, run, seek, file_stream file (by decide) (.single step)⟩

/-- A byte is read from the file that was just opened, and the position is still zero. -/
theorem fread_stays : ∃ privateData opened after,
    fopen [0x30, 0x3A, slash, 0x61] [0x72] singleKernel = (.ok 1, opened) ∧
      StreamFile opened 1 privateData singleFile 0 ∧
      fread 0x900000 1 1 1 opened = (.ok 1, after) ∧ StreamFile after 1 privateData singleFile 0 ∧
      ∀ next, StreamFile after 1 privateData singleFile next →
        ¬Streams (.read 0x900000 1 1) singleFile opened after 0 next 1 := by
  obtain ⟨privateData, opened, run, file, disk⟩ := singleFile_opened
  have first : (fat16GetFirstCluster singleFile).toInt = (2 : Nat) := by decide
  obtain ⟨bytes, left, fileRead⟩ : ∃ bytes left,
      fat16Read singleFile 0 1 1 0x900000 opened.memory.bytes opened.disk = (.ok (1, bytes), left) := by
    have short : (1 : Word).toNat ≤ clusterSize ⟨1, 1, 1, 16, 1, 0x29⟩ := by decide
    obtain ⟨left, loop⟩ := fat16ReadLoop_first first (by decide) short 1 0 0 rfl (by decide)
      (by decide) singleDisk_volume 0x900000 opened.memory.bytes
    rw [disk]
    exact ⟨_, left, (bind_ok loop).trans rfl⟩
  have something : ¬((1 : Word) = 0 ∨ (1 : Word) = 0) := by decide
  have call : fread 0x900000 1 1 1 opened = _ :=
    (file.fread_eq 0x900000 something).trans (file.fat16Read_eq 0x900000 1 1)
  rw [fileRead] at call
  obtain ⟨after', _⟩ := file.fread_ok call
  refine ⟨privateData, opened, _, run, file, call, after', ?_⟩
  intro next moved streams
  have stays := moved.pos_unique after'
  have target := Option.some.inj (streams.moved (by decide))
  rw [stays] at target
  exact absurd target (by decide)

end PeachOS
