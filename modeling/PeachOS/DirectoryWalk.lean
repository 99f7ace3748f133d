import PeachOS.DirectoryLoad
import PeachOS.PathWhole

/-! One round of the walk along the parts of a path, and what giving back the item of a directory
leaves alone. -/

namespace PeachOS
open Program ByteMemory

/-- An item that was made since `base`, with what it refers to. -/
structure OwnItem (base kernel : Kernel) (item : Addr) : Prop where
  fresh : ¬HeldAt base.memory.heap item
  held : item ≠ 0 → HeldAt kernel.memory.heap item ∧ ∃ record, kernel.files item = some (.fatItem record)
  target : ∀ record, kernel.files item = some (.fatItem record) → ¬HeldAt base.memory.heap record.item
  table : ∀ record directory, kernel.files item = some (.fatItem record) →
    kernel.files record.item = some (.fatDirectory directory) →
      HeldAt kernel.memory.heap record.item ∧ ¬HeldAt base.memory.heap directory.item

section Own
variable {tables : Set (Nat → Addr)} {base kernel after : Kernel} {item : Addr}

/-- Giving back an item that was made since `base`. -/
theorem Alongside.itemFree (alongside : Alongside tables base kernel) (own : OwnItem base kernel item)
    (run : fat16FatItemFree item kernel = (.ok (), after)) : Alongside tables base after := by
  refine ⟨?_, Guards.itemFree unguarded item _ _ _ alongside.recorded run,
    (keepsVolume_itemFree item).sector _ _ _ _ alongside.sector run⟩
  obtain ⟨record, same, looked, steps⟩ := bind_eq_ok run
  obtain ⟨rfl, old, here, selected⟩ := Kernel.record_ok looked
  have entry : same.files item = some (.fatItem record) := by
    cases old <;> cases selected
    exact here
  obtain ⟨target, itemType⟩ := record
  cases itemType with
  | file =>
    obtain ⟨_, middle, freed, rest⟩ := bind_eq_ok steps
    have left := alongside.apart.freeRecord alongside.recorded (own.target _ entry) freed
    have recorded := Guards.free unguarded foreign_fatDirectoryItem _ _ _ _ alongside.recorded freed
    exact left.freeRecord recorded own.fresh rest
  | directory =>
    obtain ⟨_, middle, freed, rest⟩ := bind_eq_ok steps
    have recorded := Guards.freeDirectory unguarded _ _ _ _ alongside.recorded freed
    refine Apart.freeRecord ?_ recorded own.fresh rest
    exact alongside.apart.freeDirectory alongside.recorded (own.target _ entry)
      (fun directory found => (own.table _ directory entry found).2) freed

end Own

/-- The parts of a parsed path from `part` on, by the strings of their names. -/
inductive PartList (kernel : Kernel) : Addr → List Addr → Prop
  | nil : PartList kernel 0 []
  | cons {part next name : Addr} {names : List Addr} (nonnull : part ≠ 0)
      (held : HeldAt kernel.memory.heap part) (here : kernel.files part = some (.pathPart ⟨name, next⟩))
      (rest : PartList kernel next names) : PartList kernel part (name :: names)

/-- The item of a directory that was loaded. -/
def Enters (kernel : Kernel) (item : Addr) (directory : FatDirectory) : Prop :=
  ∃ target, kernel.files item = some (.fatItem ⟨target, .directory⟩) ∧
    kernel.files target = some (.fatDirectory directory)

section Free
variable {α : Type} {tables : Set (Nat → Addr)} {base kernel after : Kernel} {item : Addr}
  {select : FileRecord → Option α} {ptr other : Addr}

theorem Kernel.freeRecord_other (recorded : Recorded tables kernel)
    (run : Kernel.freeRecord select ptr kernel = (.ok (), after)) (different : other ≠ ptr) (heldAt : HeldAt kernel.memory.heap other) :
    HeldAt after.memory.heap other ∧ after.files other = kernel.files other := by
  obtain ⟨start, rfl, held⟩ := heldAt
  have moved : ∀ {first : Nat} {heap : Heap}, Frees kernel.memory.heap heap first →
      ptr = heapBlockToAddress kernel.memory.heap first →
      HeldAt heap (heapBlockToAddress kernel.memory.heap start) := by
    intro first heap frees same
    refine ⟨start, (heapBlockToAddress_congr frees.saddr start).symm, frees.held held ?_⟩
    rintro rfl
    exact different same.symm
  rcases Kernel.freeRecord_ok run with
    ⟨rfl, rfl⟩ | ⟨record, value, here, _, rfl⟩ | ⟨_, rfl, block, leads, bound, free⟩
  · have frees := recorded.sound.heapFree_null
    exact ⟨⟨start, (heapBlockToAddress_congr frees.saddr start).symm,
      frees.held_below recorded.sound held⟩, rfl⟩
  · obtain ⟨block, same, clean⟩ := recorded.recorded ptr record here
    refine ⟨?_, Function.update_of_ne different _ _⟩
    have frees := recorded.sound.heapFree_block clean.bound
    rw [← same] at frees
    exact moved frees same
  · have frees : Frees kernel.memory.heap (heapFree kernel.memory.heap ptr) block := heapFree_frees leads
    refine ⟨⟨start, (heapBlockToAddress_congr frees.saddr start).symm, frees.held held ?_⟩, rfl⟩
    rintro rfl
    exact held.taken free

theorem Kernel.freeRecord_fewer (run : Kernel.freeRecord select ptr kernel = (.ok (), after))
    {record : FileRecord} (here : after.files other = some record) : kernel.files other = some record := by
  rcases Kernel.freeRecord_ok run with ⟨_, rfl⟩ | ⟨_, _, _, _, rfl⟩ | ⟨_, rfl, _⟩
  · exact here
  · by_cases same : other = ptr
    · have gone := (Function.update_self ptr none kernel.files).symm.trans (same ▸ here)
      cases gone
    · exact (Function.update_of_ne same _ _).symm.trans here
  · exact here

end Free

section Access
variable {α : Type} {kernel : Kernel} {select : FileRecord → Option α} {ptr : Addr}

theorem Kernel.record_fault (absent : (kernel.files ptr).bind select = none) :
    Kernel.record select ptr kernel = (.error .fault, kernel) := by
  unfold Kernel.record
  rw [absent]

end Access

section Walk
variable {tables : Set (Nat → Addr)} {base kernel : Kernel} {item part : Addr}

theorem Alongside.walk_down (alongside : Alongside tables base kernel) {name next : Addr}
    {directory : FatDirectory} {middle left : Kernel} (nonnull : part ≠ 0) (held : HeldAt base.memory.heap part)
    {following : Addr} (here : base.files part = some (.pathPart ⟨name, following⟩))
    (enters : Enters kernel item directory)
    (found : fat16FindItemInDirectory directory name kernel = (.ok next, middle))
    (freed : fat16FatItemFree item middle = (.ok (), left)) (fuel : Nat) :
    fat16GetDirectoryEntryLoop (fuel + 1) part item kernel =
      fat16GetDirectoryEntryLoop fuel following next left := by
  obtain ⟨target, itemHere, directoryHere⟩ := enters
  have partHere : kernel.files part = some (.pathPart ⟨name, following⟩) := by
    rw [alongside.apart.files part held, here]
  rw [fat16GetDirectoryEntryLoop, if_neg nonnull,
    bind_ok (Kernel.record_run itemHere (rfl : FileRecord.asFatItem _ = some ⟨target, .directory⟩)),
    if_neg (fun different => different rfl),
    bind_ok (Kernel.record_run directoryHere (rfl : FileRecord.asFatDirectory _ = some directory)),
    bind_ok (Kernel.record_run partHere (rfl : FileRecord.asPathPart _ = some ⟨name, following⟩)),
    bind_ok found, bind_ok freed]

end Walk

end PeachOS
