import PeachOS.FileGuards

/-! How `fopen` and `fclose` end, whatever the disk holds: what they do to the table of file
descriptors, and which records they leave alone. -/

namespace PeachOS
open Program Search

section Open
variable {guarded : Set Addr} {kind : Addr → FileRecord → Prop} {tables : Set (Nat → Addr)}
  {table : Nat → Addr} {before after : Kernel} {filename modeStr : List Byte}

theorem Guards.fopenPath (anchored : ∀ ptr record, kind ptr record → FileRecord.Anchor record)
    (rootPath : Addr) (modeStr : List Byte) :
    Preserves (Guards guarded kind tables) (fopenPath rootPath modeStr) := by
  unfold PeachOS.fopenPath
  apply Preserves.ite
  · exact Preserves.pure _
  · apply Preserves.bind (Guards.record _ _)
    intro root
    apply Preserves.ite
    · exact Preserves.pure _
    · cases diskGet root.driveNo with
      | none => exact Preserves.pure _
      | some disk =>
        apply Preserves.bind
        · exact Preserves.read _
        · intro filesystem
          apply Preserves.ite
          · exact Preserves.pure _
          · apply Preserves.ite
            · exact Preserves.pure _
            · apply Preserves.bind (Guards.fat16Open anchored _ _)
              intro privateData
              apply Preserves.ite
              · exact Preserves.pure _
              · exact Preserves.pure _

theorem fopenPath_error {rootPath : Addr} {code : Int}
    (run : PeachOS.fopenPath rootPath modeStr before = (.ok (.error code), after)) : code < 0 := by
  unfold PeachOS.fopenPath at run
  split at run
  · cases run
    decide
  · obtain ⟨root, middle, _, rest⟩ := bind_eq_ok run
    split at rest
    · cases rest
      decide
    · cases found : diskGet root.driveNo with
      | none =>
        simp only [found] at rest
        cases rest
        decide
      | some disk =>
        simp only [found, read_bind] at rest
        split at rest
        · cases rest
          decide
        · split at rest
          · cases rest
            decide
          · obtain ⟨privateData, last, _, ending⟩ := bind_eq_ok rest
            split at ending
            next failed =>
              cases ending
              unfold isErr at failed
              exact of_decide_eq_true failed
            · cases ending

/-- The paths that `pathparser_parse` turns down before it allocates anything. -/
def PathRejected (path : List Byte) : Prop :=
  peachosMaxPath < strlen path ∨ pathparserPathValidFormat path = false

instance (path : List Byte) : Decidable (PathRejected path) := inferInstanceAs (Decidable (_ ∨ _))

theorem pathparserParse_rejected (rejected : PathRejected filename) :
    pathparserParse filename before = (.ok 0, before) := by
  unfold pathparserParse
  by_cases long : peachosMaxPath < strlen filename
  · exact congrFun (if_pos long) _
  · have invalid := rejected.resolve_left long
    have drive : pathparserGetDriveByPath filename = (- EBADPATH, filename) := by
      unfold pathparserGetDriveByPath
      rw [invalid]
      rfl
    rw [if_neg long, drive]
    rfl

/-- The guarded records and the root of a path. -/
def orRoot (kind : Addr → FileRecord → Prop) (root ptr : Addr) (record : FileRecord) : Prop :=
  kind ptr record ∨ (ptr = root ∧ ∃ path, record = .pathRoot path)

theorem orRoot_anchored (anchored : ∀ ptr record, kind ptr record → FileRecord.Anchor record)
    (root : Addr) : ∀ ptr record, orRoot kind root ptr record → FileRecord.Anchor record := by
  rintro ptr record (isKind | ⟨_, path, rfl⟩)
  · exact anchored ptr record isKind
  · trivial

theorem Guards.insert {ptr : Addr} {block : Nat} {record : FileRecord}
    (guards : Guards guarded kind tables before)
    (address : ptr = heapBlockToAddress before.memory.heap block)
    (held : Held before.memory.heap block) (here : before.files ptr = some record)
    (isKind : kind ptr record) : Guards (insert ptr guarded) kind tables before where
  sound := guards.sound
  recorded := guards.recorded
  held := by
    rintro other (rfl | member)
    · exact ⟨block, address, held⟩
    · exact guards.held other member
  kept := by
    rintro other (rfl | member)
    · exact ⟨record, here, isKind⟩
    · exact guards.kept other member
  table := guards.table

theorem Guards.mono {fewer : Set Addr} {kind' : Addr → FileRecord → Prop}
    (guards : Guards guarded kind tables before) (subset : fewer ⊆ guarded)
    (implies : ∀ ptr record, ptr ∈ fewer → before.files ptr = some record → kind ptr record →
      kind' ptr record) : Guards fewer kind' tables before where
  sound := guards.sound
  recorded := guards.recorded
  held := fun ptr member => guards.held ptr (subset member)
  kept := by
    intro ptr member
    obtain ⟨record, here, isKind⟩ := guards.kept ptr (subset member)
    exact ⟨record, here, implies ptr record member here isKind⟩
  table := guards.table

/-- What a successful `kzalloc` for a record makes: a block that was free and is now the
first of its chain, with the record in it. -/
theorem Guards.created {ptr : Addr} {size : Word} {record : FileRecord}
    (guards : Guards guarded kind tables before) (nonnull : ptr ≠ 0) (sized : 0 < mallocBlocks size)
    (run : Kernel.newRecord size record before = (.ok ptr, after)) :
    ∃ block : Nat, ptr = heapBlockToAddress before.memory.heap block ∧
      block < before.memory.heap.table.total ∧
      EntryFree before.memory.heap.table.entries block ∧
      ptr = heapBlockToAddress after.memory.heap block ∧ Held after.memory.heap block ∧
      after.files ptr = some record ∧ after.fileDescriptors = before.fileDescriptors := by
  have positive : 0 < size.toNat := by
    have := mallocBlocks_covered size sized
    omega
  rcases Kernel.newRecord_ok guards.sound.kernel run with
    ⟨null, _⟩ | ⟨block, address, _, _, marks, same⟩
  · exact absurd null nonnull
  · refine ⟨block, address, marks.bound, marks.startFree, ?_, marks.fresh guards.sound sized, ?_, ?_⟩
    · rw [heapBlockToAddress_congr marks.saddr]
      exact address
    · rw [same]
      simp only [Kernel.setFiles_files, placeRecord, if_true]
      rw [if_pos (by simpa using positive)]
    · rw [same]
      rfl

theorem pathparserParse_root (anchored : ∀ ptr record, kind ptr record → FileRecord.Anchor record)
    (guards : Guards guarded kind tables before) {root : Addr} (accepted : ¬PathRejected filename)
    (run : pathparserParse filename before = (.ok root, after)) :
    ∃ block : Nat, root = heapBlockToAddress before.memory.heap block ∧
      block < before.memory.heap.table.total ∧
      EntryFree before.memory.heap.table.entries block ∧
      Guards (insert root guarded) (orRoot kind root) tables after := by
  unfold PathRejected at accepted
  rw [not_or, Bool.not_eq_false] at accepted
  obtain ⟨short, valid⟩ := accepted
  have drive : pathparserGetDriveByPath filename =
      (tonumericdigit (filename.getD 0 0), filename.drop 3) := by
    unfold pathparserGetDriveByPath
    rw [valid]
    rfl
  have digit : ¬tonumericdigit (filename.getD 0 0) < 0 := by
    unfold pathparserPathValidFormat isdigit at valid
    simp only [Bool.and_eq_true, decide_eq_true_eq] at valid
    have := valid.1.2.1
    unfold tonumericdigit
    omega
  unfold pathparserParse at run
  rw [if_neg short, drive] at run
  dsimp only at run
  rw [if_neg digit] at run
  obtain ⟨created, first, creation, rest⟩ := bind_eq_ok run
  obtain ⟨ptr, middle, allocated, writing⟩ := bind_eq_ok creation
  obtain ⟨_, last, written, returned⟩ := bind_eq_ok writing
  cases returned
  have allocatedGuards := Guards.newRecord _ _ _ _ _ guards allocated
  have nonnull : created ≠ 0 := by
    rintro rfl
    obtain ⟨_, old, _, here, _⟩ := Kernel.writeRecord_ok written
    rw [allocatedGuards.null] at here
    cases here
  obtain ⟨block, address, bound, free, place, held, here, _⟩ :=
    guards.created nonnull (by decide) allocated
  have both : Guards (Insert.insert created guarded) (orRoot kind created) tables middle :=
    (allocatedGuards.mono subset_rfl (fun _ _ _ _ isKind => Or.inl isKind)).insert place held here
      (Or.inr ⟨rfl, _, rfl⟩)
  have writtenGuards := both.wrote (fun _ _ _ _ _ => Or.inr ⟨rfl, _, rfl⟩) written
  have stillAnchored := orRoot_anchored anchored created
  refine ⟨block, ?_⟩
  rw [if_neg nonnull] at rest
  obtain ⟨⟨firstPart, path⟩, second, parsed, afterFirst⟩ := bind_eq_ok rest
  have secondGuards := Guards.parsePathPart stillAnchored _ _ _ _ _ writtenGuards parsed
  dsimp only at afterFirst
  split at afterFirst
  · cases afterFirst
    exact ⟨address, bound, free, secondGuards⟩
  · obtain ⟨record, third, looked, afterRoot⟩ := bind_eq_ok afterFirst
    have thirdGuards := Guards.record _ _ _ _ _ secondGuards looked
    obtain ⟨_, fourth, entered, afterEntry⟩ := bind_eq_ok afterRoot
    have fourthGuards := thirdGuards.wrote (fun _ _ _ _ _ => Or.inr ⟨rfl, _, rfl⟩) entered
    obtain ⟨⟨part, path'⟩, fifth, parsedNext, afterNext⟩ := bind_eq_ok afterEntry
    have fifthGuards := Guards.parsePathPart stillAnchored _ _ _ _ _ fourthGuards parsedNext
    obtain ⟨_, sixth, looped, returned⟩ := bind_eq_ok afterNext
    have sixthGuards := Guards.parseLoop stillAnchored _ _ _ _ _ _ fifthGuards looped
    cases returned
    exact ⟨address, bound, free, sixthGuards⟩

theorem Guards.retable (guards : Guards guarded kind tables before) (index : Nat) (desc : Addr) :
    Guards guarded kind {Function.update before.fileDescriptors index desc}
      (before.setFileDescriptor index desc) :=
  ⟨guards.sound, guards.recorded, guards.held, guards.kept, rfl⟩

/-- The slot that `file_new_descriptor` takes: the first free one. -/
def freeSlot (kernel : Kernel) : Option Nat :=
  firstIndex peachosMaxFileDescriptors (fun i => kernel.fileDescriptors i == 0)

structure Registered (guarded : Set Addr) (kind : Addr → FileRecord → Prop) (table : Nat → Addr)
    (i : Nat) (desc : Addr) (descriptor : FileDescriptor) (after : Kernel) : Prop where
  guards : Guards guarded kind {Function.update table i desc} after
  apart : desc ∉ guarded
  nonnull : desc ≠ 0
  held : ∃ block : Nat, desc = heapBlockToAddress after.memory.heap block ∧
    Held after.memory.heap block
  file : after.files desc = some (.fileDescriptor descriptor)

theorem fileNewDescriptor_ok (guards : Guards guarded kind tables before) {res : Int} {desc : Addr}
    (run : fileNewDescriptor before = (.ok (res, desc), after)) :
    (freeSlot before = none ∧ res = - ENOMEM ∧ after = before) ∨
    ∃ i, freeSlot before = some i ∧ res = 0 ∧
      Registered guarded kind before.fileDescriptors i desc ⟨i + 1, false, 0, none⟩ after := by
  unfold fileNewDescriptor at run
  rw [read_bind] at run
  cases scan : freeSlot before with
  | none =>
    unfold freeSlot at scan
    simp only [scan] at run
    cases run
    exact Or.inl ⟨rfl, rfl, rfl⟩
  | some i =>
    right
    unfold freeSlot at scan
    simp only [scan] at run
    obtain ⟨ptr, middle, allocated, writing⟩ := bind_eq_ok run
    obtain ⟨_, last, written, entering⟩ := bind_eq_ok writing
    cases entering
    have allocatedGuards := Guards.newRecord _ _ _ _ _ guards allocated
    have nonnull : desc ≠ 0 := by
      rintro rfl
      obtain ⟨_, old, _, here, _⟩ := Kernel.writeRecord_ok written
      rw [allocatedGuards.null] at here
      cases here
    obtain ⟨block, address, bound, free, place, held, here, table⟩ :=
      guards.created nonnull (by decide) allocated
    have apart : desc ∉ guarded := address ▸ guards.fresh bound free
    have writtenGuards := allocatedGuards.wrote
      (fun _ _ _ _ member => absurd member apart) written
    obtain ⟨rfl, _⟩ := Kernel.writeRecord_ok written
    refine ⟨i, rfl, rfl, ?_, apart, nonnull, ⟨block, place, held⟩, Function.update_self _ _ _⟩
    rw [← table]
    exact writtenGuards.retable i desc

theorem Guards.fopenPrivateData
    (anchored : ∀ ptr record, kind ptr record → FileRecord.Anchor record)
    (filename modeStr : List Byte) :
    Preserves (Guards guarded kind tables) (fopenPrivateData filename modeStr) := by
  intro before result after guards run
  obtain ⟨root, middle, parsed, rest⟩ := bind_eq_ok run
  by_cases rejected : PathRejected filename
  · rw [pathparserParse_rejected rejected] at parsed
    cases parsed
    exact Guards.fopenPath anchored _ _ _ _ _ guards rest
  · obtain ⟨block, address, bound, free, middleGuards⟩ :=
      pathparserParse_root anchored guards rejected parsed
    have afterGuards := Guards.fopenPath (orRoot_anchored anchored root) _ _ _ _ _ middleGuards rest
    apply afterGuards.mono (Set.subset_insert _ _)
    rintro ptr record member _ (isKind | ⟨rfl, _⟩)
    · exact isKind
    · exact absurd member (address ▸ guards.fresh bound free)

theorem Guards.exact (guards : Guards guarded kind tables before) :
    Guards guarded kind {before.fileDescriptors} before :=
  ⟨guards.sound, guards.recorded, guards.held, guards.kept, rfl⟩

theorem fopenRegister_ok (guards : Guards guarded kind tables before)
    {opened : Except Int (Nat × Addr)} {res : Int}
    (run : fopenRegister opened before = (.ok res, after)) :
    (after = before ∧ (opened = .error res ∨ (freeSlot before = none ∧ res = - ENOMEM))) ∨
    ∃ disk privateData i desc, opened = .ok (disk, privateData) ∧ freeSlot before = some i ∧
      res = i + 1 ∧ Registered guarded kind before.fileDescriptors i desc
        ⟨i + 1, true, privateData, some disk⟩ after := by
  cases opened with
  | error code =>
    cases run
    exact Or.inl ⟨rfl, Or.inl rfl⟩
  | ok made =>
    obtain ⟨disk, privateData⟩ := made
    obtain ⟨⟨newRes, desc⟩, registeredState, registered, finishing⟩ := bind_eq_ok run
    rcases fileNewDescriptor_ok guards registered with ⟨full, rfl, rfl⟩ | ⟨i, free, rfl, new⟩
    · dsimp only at finishing
      rw [if_pos (by decide)] at finishing
      cases finishing
      exact Or.inl ⟨rfl, Or.inr ⟨full, rfl⟩⟩
    · dsimp only at finishing
      rw [if_neg (by decide)] at finishing
      obtain ⟨record, lookedState, looked, storing⟩ := bind_eq_ok finishing
      obtain ⟨rfl, found, here, selected⟩ := Kernel.record_ok looked
      rw [new.file] at here
      cases here
      cases selected
      obtain ⟨_, storedState, stored, returned⟩ := bind_eq_ok storing
      cases returned
      have storedGuards := new.guards.wrote
        (fun _ _ _ _ member => absurd member new.apart) stored
      obtain ⟨rfl, _⟩ := Kernel.writeRecord_ok stored
      exact Or.inr ⟨disk, privateData, i, desc, rfl, free, rfl, storedGuards, new.apart,
        new.nonnull, new.held, Function.update_self _ _ _⟩

theorem fopen_ok (anchored : ∀ ptr record, kind ptr record → FileRecord.Anchor record)
    (guards : Guards guarded kind tables before) {fd : Int}
    (run : fopen filename modeStr before = (.ok fd, after)) :
    ∃ opened middle, fopenPrivateData filename modeStr before = (.ok opened, middle) ∧
      ((fd = 0 ∧ Guards guarded kind {before.fileDescriptors} after ∧
        ((∃ code, opened = .error code) ∨ freeSlot before = none)) ∨
      ∃ disk privateData i desc, opened = .ok (disk, privateData) ∧ freeSlot before = some i ∧
        fd = i + 1 ∧ Registered guarded kind before.fileDescriptors i desc
          ⟨i + 1, true, privateData, some disk⟩ after) := by
  obtain ⟨res, last, opening, ending⟩ := bind_eq_ok run
  obtain ⟨opened, middle, started, rest⟩ := bind_eq_ok opening
  have middleGuards := Guards.fopenPrivateData anchored _ _ _ _ _ guards.exact started
  have table : middle.fileDescriptors = before.fileDescriptors := middleGuards.table
  have slot : freeSlot middle = freeSlot before := by
    unfold freeSlot
    rw [table]
  refine ⟨opened, middle, started, ?_⟩
  rcases fopenRegister_ok middleGuards rest with
    ⟨rfl, failed | ⟨full, rfl⟩⟩ | ⟨disk, privateData, i, desc, made, free, rfl, new⟩
  · obtain ⟨root, parsedState, _, path⟩ := bind_eq_ok started
    rw [failed] at path
    rw [if_pos (fopenPath_error path)] at ending
    cases ending
    exact Or.inl ⟨rfl, middleGuards, Or.inl ⟨res, failed⟩⟩
  · rw [if_pos (by decide)] at ending
    cases ending
    exact Or.inl ⟨rfl, middleGuards, Or.inr (slot ▸ full)⟩
  · rw [if_neg (by omega)] at ending
    cases ending
    rw [table] at new
    exact Or.inr ⟨disk, privateData, i, desc, made, slot ▸ free, rfl, new⟩

theorem fclose_ok (anchored : ∀ ptr record, kind ptr record → FileRecord.Anchor record)
    (guards : Guards guarded kind tables before) {fd res : Int}
    (run : fclose fd before = (.ok res, after)) :
    (fileGetDescriptor before fd = 0 ∧ res = - EIO ∧ after = before) ∨
    (fileGetDescriptor before fd ≠ 0 ∧ res = 0 ∧ ∃ middle descriptor,
      Guards guarded kind {before.fileDescriptors} middle ∧
      middle.files (fileGetDescriptor before fd) = some (.fileDescriptor descriptor) ∧
      Guards (guarded \ {fileGetDescriptor before fd}) kind
        {Function.update before.fileDescriptors (descriptor.index - 1).toNat 0} after) := by
  unfold fclose at run
  rw [read_bind] at run
  generalize fileGetDescriptor before fd = desc at run ⊢
  split at run
  next null =>
    cases run
    exact Or.inl ⟨null, rfl, rfl⟩
  next nonnull =>
    obtain ⟨record, looked, found, rest⟩ := bind_eq_ok run
    obtain ⟨rfl, _⟩ := Kernel.record_ok found
    split at rest
    · cases rest
    · obtain ⟨closedRes, middle, closed, freeing⟩ := bind_eq_ok rest
      have middleGuards := Guards.fat16Close anchored _ _ _ _ guards.exact closed
      have zero : closedRes = 0 := by
        obtain ⟨_, _, _, returned⟩ := bind_eq_ok closed
        cases returned
        rfl
      rw [if_pos zero] at freeing
      obtain ⟨_, last, freed, returned⟩ := bind_eq_ok freeing
      cases returned
      obtain ⟨descriptor, lookedAgain, foundAgain, emptying⟩ := bind_eq_ok freed
      obtain ⟨rfl, old, here, selected⟩ := Kernel.record_ok foundAgain
      dsimp only at emptying
      split at emptying
      · cases emptying
      · rw [update_bind] at emptying
        have file : lookedAgain.files desc = some (.fileDescriptor descriptor) := by
          rw [here]
          cases old <;> cases selected
          rfl
        have table : lookedAgain.fileDescriptors = looked.fileDescriptors := middleGuards.table
        have unlisted : Guards (guarded \ {desc}) kind {looked.fileDescriptors} lookedAgain :=
          middleGuards.mono Set.sdiff_subset (fun _ _ _ _ isKind => isKind)
        have fewer := (unlisted.retable (descriptor.index - 1).toNat 0).freed
          (fun _ _ _ _ member => member.2 (Set.mem_singleton desc)) emptying
        rw [table] at fewer
        exact Or.inr ⟨nonnull, zero, lookedAgain, descriptor, middleGuards, file, fewer⟩

end Open

end PeachOS
