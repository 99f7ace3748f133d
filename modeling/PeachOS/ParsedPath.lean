import Mathlib.Order.Interval.Finset.Nat
import PeachOS.TreeWalk

/-! The parse of a path on a heap with free blocks at its end: what it takes, and that the root directory stays as it was
loaded. -/

namespace PeachOS
open Program ByteMemory

section Parser
variable {before after : Kernel} {path rest : List Byte}

theorem Uses.copyLoop (str : Addr) (i : Nat) (path : List Byte) : Uses 0 (pathparserCopyLoop str i path) := by
  induction path generalizing i with
  | nil => exact Uses.pure _
  | cons c path ih =>
    have char : Uses 0 (pathparserSetChar str i c) := (Uses.record _).bind le_rfl (fun _ _ _ _ => Uses.setBytes _)
    exact Uses.ite (Uses.pure _) (char.bind le_rfl (fun _ _ _ _ => ih (i + 1)))

theorem Uses.getPathPart (path : List Byte) : Uses 1 (pathparserGetPathPart path) := by
  have record : Uses 1 (Kernel.newRecord (BitVec.ofNat 32 peachosMaxPath) .pathString) :=
    (Uses.newRecord (by decide) _).less (by decide)
  refine record.bind le_rfl (fun str _ _ _ => (Uses.copyLoop str 0 path).bind le_rfl ?_)
  rintro ⟨i, left⟩ _ _ _
  exact Uses.ite ((Uses.freeRecord _).bind le_rfl (fun _ _ _ _ => Uses.pure _)) (Uses.pure _)

theorem Uses.parsePathPart (last : Addr) (path : List Byte) : Uses 2 (pathparserParsePathPart last path) := by
  have record : Uses 1 (Kernel.newRecord 8 (.pathPart ⟨0, 0⟩)) := (Uses.newRecord (by decide) _).less (by decide)
  refine (Uses.getPathPart path).bind (by decide) ?_
  rintro ⟨str, left⟩ _ _ _
  refine Uses.ite (Uses.pure _) (record.bind le_rfl (fun part _ _ _ => (Uses.writeRecord _ _).bind le_rfl ?_))
  intro _ _ _ _
  refine Uses.ite ?_ (Uses.pure _)
  refine (Uses.record last).bind le_rfl (fun _ _ _ _ => (Uses.writeRecord _ _).bind le_rfl (fun _ _ _ _ => ?_))
  exact Uses.pure _

theorem Uses.parseLoop (fuel : Nat) (part : Addr) (path : List Byte) :
    Uses (2 * fuel) (pathparserParseLoop fuel part path) := by
  induction fuel generalizing part path with
  | zero =>
    intro _ _ _ _ _ _ run
    cases run
  | succ fuel ih =>
    refine Uses.ite (Uses.pure _) ((Uses.parsePathPart part path).bind (by omega) ?_)
    rintro ⟨next, left⟩ _ _ _
    exact (ih next left).less (by omega)

theorem pathparserCopyLoop_left {str : Addr} {i copied : Nat}
    (run : pathparserCopyLoop str i path before = (.ok (copied, rest), after)) : rest.length ≤ path.length := by
  induction path generalizing i before with
  | nil =>
    cases run
    exact le_rfl
  | cons c path ih =>
    unfold pathparserCopyLoop at run
    split at run
    · cases run
      exact le_rfl
    · obtain ⟨_, middle, _, later⟩ := bind_eq_ok run
      exact (ih later).trans (Nat.le_succ _)

theorem pathparserParsePathPart_left {last part : Addr}
    (run : pathparserParsePathPart last path before = (.ok (part, rest), after)) : rest.length ≤ path.length := by
  obtain ⟨⟨str, left⟩, middle, begun, ended⟩ := bind_eq_ok run
  have shorter : left.length ≤ path.length := by
    obtain ⟨buffer, first, _, copying⟩ := bind_eq_ok begun
    obtain ⟨⟨i, behind⟩, second, copied, finish⟩ := bind_eq_ok copying
    have bound := pathparserCopyLoop_left copied
    have tail : (if behind.headD 0 = slash then behind.tail else behind).length ≤ behind.length := by
      split
      · exact behind.length_tail ▸ Nat.sub_le _ _
      · exact le_rfl
    dsimp only at finish
    split at finish
    · obtain ⟨_, _, _, returned⟩ := bind_eq_ok finish
      cases returned
      exact tail.trans bound
    · cases finish
      exact tail.trans bound
  dsimp only at ended
  split at ended
  · cases ended
    exact shorter
  · obtain ⟨made, first, _, writing⟩ := bind_eq_ok ended
    obtain ⟨_, second, _, linking⟩ := bind_eq_ok writing
    split at linking
    · obtain ⟨_, third, _, looked⟩ := bind_eq_ok linking
      obtain ⟨_, fourth, _, returned⟩ := bind_eq_ok looked
      cases returned
      exact shorter
    · cases linking
      exact shorter

theorem Uses.parse (path : List Byte) : Uses (2 * path.length + 7) (pathparserParse path) := by
  unfold pathparserParse
  refine Uses.ite (Uses.pure _) ?_
  have behind : (pathparserGetDriveByPath path).2.length ≤ path.length := by
    unfold pathparserGetDriveByPath
    split
    · exact le_rfl
    · exact path.length_drop ▸ Nat.sub_le _ _
  generalize pathparserGetDriveByPath path = drive at behind
  obtain ⟨res, path'⟩ := drive
  refine Uses.ite (Uses.pure _) ?_
  have root : Uses 1 (pathparserCreateRoot res) := by
    have record : Uses 1 (Kernel.newRecord 8 (.pathRoot ⟨0, 0⟩)) := (Uses.newRecord (by decide) _).less (by decide)
    exact record.bind le_rfl (fun _ _ _ _ => (Uses.writeRecord _ _).bind le_rfl (fun _ _ _ _ => Uses.pure _))
  refine root.bind (by omega) (fun pathRoot _ _ _ => Uses.ite (Uses.pure _) ?_)
  refine (Uses.parsePathPart 0 path').bind (by omega) ?_
  rintro ⟨firstPart, left⟩ earlier later parsed
  have shorter : left.length ≤ path'.length := pathparserParsePathPart_left parsed
  dsimp only at behind
  refine Uses.ite (Uses.pure _) ((Uses.record _).bind (by omega) (fun _ _ _ _ => ?_))
  refine (Uses.writeRecord _ _).bind (by omega) (fun _ _ _ _ => ?_)
  refine (Uses.parsePathPart firstPart left).bind (by omega) ?_
  rintro ⟨part, last⟩ _ _ _
  refine ((Uses.parseLoop (left.length + 1) part last).bind le_rfl (fun _ _ _ _ => Uses.pure _)).less ?_
  omega

end Parser

section Owned
variable {heap : Heap} {address : Addr}

theorem FreeEnd.blocks {count : Nat} (freeEnd : FreeEnd heap count) : count ≤ (freeBlocks heap).card := by
  have within := freeEnd.within
  have inside : Finset.Ico (heap.table.total - count) heap.table.total ⊆ freeBlocks heap := by
    intro block member
    obtain ⟨low, bound⟩ := Finset.mem_Ico.mp member
    exact mem_freeBlocks.mpr ⟨bound, freeEnd.free block low bound⟩
  calc
    count = (Finset.Ico (heap.table.total - count) heap.table.total).card := by
      rw [Nat.card_Ico]
      omega
    _ ≤ (freeBlocks heap).card := Finset.card_le_card inside

theorem Owned.live (inChain : Owned heap address) (sound : Sound heap) : Live heap (frameOf address) := by
  obtain ⟨start, block, chained, page⟩ := inChain
  exact ⟨block, chained.bound, page, chained.taken sound⟩

/-- Every taken block is in a chain: going back from it, the first block that none goes on into is taken. -/
theorem FreeEntriesEnd.chained (ends : FreeEntriesEnd heap) {block : Nat} (bound : block < heap.table.total)
    (taken : ¬EntryFree heap.table.entries block) : ∃ start, Chained heap start block := by
  induction block with
  | zero => exact ⟨0, (Held.mk ⟨bound, fun previous next => absurd next (Nat.succ_ne_zero previous)⟩ taken).chained⟩
  | succ previous ih =>
    by_cases goesOn : HasNext (heap.table.entries (previous : Nat))
    · have low : previous < heap.table.total := by omega
      obtain ⟨start, held, first, _, walk⟩ := ih low (fun free => ends previous low free goesOn)
      refine ⟨start, held, by omega, by exact_mod_cast bound, fun j below above => ?_⟩
      rcases Int.lt_or_le j previous with less | last
      · exact walk j below less
      · rw [show j = previous by omega]
        exact goesOn
    · refine ⟨previous + 1, (Held.mk ⟨bound, fun other next => ?_⟩ taken).chained⟩
      rw [Nat.succ.inj next]
      exact goesOn

theorem Live.owned (live : Live heap (frameOf address)) (ends : FreeEntriesEnd heap) : Owned heap address := by
  obtain ⟨block, bound, page, taken⟩ := live
  obtain ⟨start, chained⟩ := ends.chained bound taken
  exact ⟨start, block, chained, page⟩

end Owned

section Parsed
variable {tables : Set (Nat → Addr)} {image : Image} {header : FatHeader} {before after : Kernel}
  {room count : Nat} {filename : List Byte} {ptr : Addr} {names : List (List Byte)}

theorem Extends.unharmed (extended : Extends ∅ before after) (ready : Ready tables image header room before)
    (later : Ready tables image header room after) : Unharmed before after where
  owned := fun _ inside => (extended.live _ (inside.live ready.sound)).owned later.freeEnd.ends
  bytes := fun address inside => extended.bytes _ (inside.live ready.sound) (Set.notMem_empty _) address rfl

theorem Live.heldAt (recorded : Recorded tables after) {record : FileRecord}
    (live : Live after.memory.heap ptr) (here : after.files ptr = some record) : HeldAt after.memory.heap ptr := by
  obtain ⟨block, address, clean⟩ := recorded.recorded ptr record here
  obtain ⟨other, bound, same, taken⟩ := live
  obtain rfl := heapBlockToAddress_inj recorded.sound.kernel.pool clean.bound bound (address.symm.trans same)
  exact ⟨block, address, clean, taken⟩

theorem Buffer.spells {name : List Byte} (recorded : Recorded tables after) (buffer : Buffer after ptr name) :
    Spells after ptr name := by
  refine ⟨⟨buffer.live.heldAt recorded buffer.file, buffer.file⟩, ?_⟩
  unfold nameAt
  rw [buffer.content, lowered_padded]

theorem PathParts.spelled (recorded : Recorded tables after) (held : PathParts after ptr names) :
    ∃ ptrs, PartList after ptr ptrs ∧ List.Forall₂ (Spells after) ptrs names := by
  induction names generalizing ptr with
  | nil => exact ⟨[], held ▸ PartList.nil, .nil⟩
  | cons name names ih =>
    obtain ⟨record, live, here, buffer, rest⟩ := held
    obtain ⟨ptrs, others, spelled⟩ := ih rest
    exact ⟨record.part :: ptrs, .cons (live.nonnull recorded.sound.kernel) (live.heldAt recorded here) here others,
      .cons (buffer.spells recorded) spelled⟩

/-- A path of drive 0 that names the parts, as `fopen` takes it. -/
structure NamesPath (filename : List Byte) (names : List (List Byte)) : Prop where
  printed : ∃ trailing, Trailing trailing ∧ filename = printPath 0x30 names ++ trailing
  some' : names ≠ []
  proper : ∀ name ∈ names, Proper name
  short : filename.length ≤ peachosMaxPath

/-- The path that was parsed: its root, its parts, and what is as before. -/
structure ParsedPath (tables : Set (Nat → Addr)) (image : Image) (header : FatHeader) (room count : Nat)
    (before after : Kernel) (root first : Addr) (names : List (List Byte)) : Prop where
  node : after.files root = some (.pathRoot ⟨0, first⟩)
  rootNonnull : root ≠ 0
  firstNonnull : first ≠ 0
  ready : Ready tables image header room after
  rooted : Rooted after image header count
  unharmed : Unharmed before after
  parts : ∃ ptrs, PartList after first ptrs ∧ List.Forall₂ (Spells after) ptrs names
  disk : after.disk = before.disk
  table : after.fileDescriptors = before.fileDescriptors

theorem NamesPath.valid (path : NamesPath filename names) : pathparserPathValidFormat filename = true := by
  obtain ⟨trailing, _, rfl⟩ := path.printed
  rw [printPath_eq _ trailing path.some']
  have three : strnlen (0x30 :: 0x3A :: slash :: printParts trailing names) 3 = 3 :=
    strnlen_of_nonzero (by simp) (by simp)
  have long := strnlen_mono (0x30 :: 0x3A :: slash :: printParts trailing names) (show 3 ≤ peachosMaxPath by decide)
  unfold pathparserPathValidFormat
  simp only [Bool.and_eq_true, decide_eq_true_eq, beq_iff_eq]
  exact ⟨⟨by omega, rfl⟩, rfl, rfl⟩

theorem NamesPath.few (path : NamesPath filename names) : names.length + 3 ≤ filename.length := by
  obtain ⟨trailing, slashes, same⟩ := path.printed
  have each := printParts_length trailing path.proper
  rw [same, printPath_eq _ trailing path.some', List.length_cons, List.length_cons, List.length_cons]
  omega

theorem NamesPath.parse (path : NamesPath filename names)
    (ready : Ready tables image header (room + (2 * filename.length + 7)) before)
    (rooted : Rooted before image header count) : ∃ root first after,
      pathparserParse filename before = (.ok root, after) ∧
      ParsedPath tables image header room count before after root first names := by
  obtain ⟨trailing, slashes, same⟩ := path.printed
  have fits := (strlen_le filename).trans path.short
  have valid := path.valid
  have short := path.short
  obtain ⟨name, others, rfl⟩ := List.exists_cons_of_ne_nil path.some'
  have printed : filename = 0x30 :: 0x3A :: slash :: printParts trailing (name :: others) :=
    same.trans (printPath_eq _ trailing (List.cons_ne_nil _ _))
  have length : filename.length = (printParts trailing (name :: others)).length + 3 := by
    rw [printed]
    rfl
  have few := path.few
  rw [List.length_cons] at few
  have free : 2 * others.length + 4 ≤ (freeBlocks before.memory.heap).card :=
    (ready.freeEnd.less (by omega)).blocks
  obtain ⟨root, after, first, run, node, held, live, extended, _⟩ := pathparserParse_valid slashes.stops
    ready.freeEnd.kernel free path.proper fits valid (by rw [printed]; rfl) (by omega)
  have tidy := Uses.parse filename tables room before root after ready.toTidy run
  have kernel := extended.kernel
  have volume : Volume after.disk image header := by
    rw [extended.disk]
    exact ready.volume
  have directories : HasDirectory after.disk := by
    rw [extended.disk]
    exact ready.directories
  have later : Ready tables image header room after := ⟨tidy, volume, directories⟩
  have number : tonumericdigit (filename.getD 0 0) = 0 := by
    rw [printed]
    rfl
  rw [number] at node
  have unharmed := extended.unharmed (ready.less (by omega)) later
  refine ⟨root, first, after, run, node, live.nonnull kernel, ?_, later,
    rooted.unharmed unharmed (congrArg Disk.streamless extended.disk), unharmed, held.spelled tidy.recorded,
    extended.disk, extended.descriptors⟩
  obtain ⟨_, firstLive, _⟩ := held
  exact firstLive.nonnull kernel

end Parsed

end PeachOS
