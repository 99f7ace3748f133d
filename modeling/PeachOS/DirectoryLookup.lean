import PeachOS.DirectoryEntries
import PeachOS.FileFrames
import PeachOS.FileVolume

/-! The lookup of a name in a directory that was loaded, against the entries that the
directory has on the disk. -/

namespace PeachOS
open Program ByteMemory

/-- A string as it is compared: up to its terminator, without regard to case. -/
def lowered (str : List Byte) : List Byte := (str.takeWhile (fun c => c != 0)).map tolower

theorem tolower_zero : ∀ c : Byte, tolower c = 0 ↔ c = 0 := by decide +kernel

theorem tolower_deleted : ∀ c : Byte, tolower c = deletedMark ↔ c = deletedMark := by decide +kernel

theorem lowered_cons {c : Byte} (nonzero : c ≠ 0) (rest : List Byte) :
    lowered (c :: rest) = tolower c :: lowered rest := by
  unfold lowered
  rw [List.takeWhile_cons_of_pos (by simpa using nonzero), List.map_cons]

theorem lowered_zero (rest : List Byte) : lowered (0 :: rest) = [] := rfl

theorem istrncmp_zero (s1 s2 : List Byte) (n : Nat) :
    istrncmp s1 s2 n = 0 ↔ (lowered s1).take n = (lowered s2).take n := by
  unfold istrncmp
  induction n generalizing s1 s2 with
  | zero => simp [compareStrings]
  | succ n ih =>
    -- past its end a string has the terminator
    have ended : ∀ s : List Byte, s.headD 0 = 0 → lowered s = [] := by
      intro s terminator
      cases s with
      | nil => rfl
      | cons c rest =>
        rw [List.headD_cons] at terminator
        rw [terminator, lowered_zero]
    have goesOn : ∀ s : List Byte, s.headD 0 ≠ 0 → lowered s = tolower (s.headD 0) :: lowered s.tail := by
      intro s nonzero
      cases s with
      | nil => exact absurd rfl nonzero
      | cons c rest => exact lowered_cons nonzero rest
    have head : ∀ s : List Byte, ((lowered s).take (n + 1)).headD 0 = tolower (s.headD 0) := by
      intro s
      by_cases terminator : s.headD 0 = 0
      · rw [ended s terminator, terminator]
        rfl
      · rw [goesOn s terminator]
        rfl
    have same : ∀ u1 u2 : Byte, (u1 == u2 || tolower u1 == tolower u2) = true ↔ tolower u1 = tolower u2 := by
      intro u1 u2
      rw [Bool.or_eq_true, beq_iff_eq, beq_iff_eq, or_iff_right_iff_imp]
      exact congrArg tolower
    rw [compareStrings]
    by_cases equal : tolower (s1.headD 0) = tolower (s2.headD 0)
    · rw [(same _ _).mpr equal, Bool.not_true, if_neg Bool.false_ne_true]
      by_cases last : s1.headD 0 = 0
      · have other : s2.headD 0 = 0 := by
          rw [← tolower_zero, ← equal, tolower_zero]
          exact last
        rw [if_pos last, ended s1 last, ended s2 other]
        simp
      · have other : s2.headD 0 ≠ 0 := by
          rw [Ne, ← tolower_zero, ← equal, tolower_zero]
          exact last
        rw [if_neg last, goesOn s1 last, goesOn s2 other, List.take_succ_cons, List.take_succ_cons, equal,
          List.cons_inj_right]
        exact ih _ _
    · have different : (s1.headD 0 == s2.headD 0 || tolower (s1.headD 0) == tolower (s2.headD 0)) = false :=
        Bool.eq_false_iff.mpr (fun found => equal ((same _ _).mp found))
      have unequal : s1.headD 0 ≠ s2.headD 0 := fun found => equal (congrArg tolower found)
      rw [different, Bool.not_false, if_pos rfl]
      constructor
      · intro zero
        exact absurd (BitVec.eq_of_toNat_eq (by omega)) unequal
      · intro taken
        have heads := (head s1).symm.trans ((congrArg (fun str => str.headD 0) taken).trans (head s2))
        exact absurd heads equal

def FatDirectoryItem.Deleted (item : FatDirectoryItem) : Prop := item.filename.headD 0 = deletedMark

instance (item : FatDirectoryItem) : Decidable item.Deleted := inferInstanceAs (Decidable (_ = _))

def Named (wanted : List Byte) (item : FatDirectoryItem) : Prop :=
  istrncmp (fat16GetFullRelativeFilename item) wanted peachosMaxPath = 0

instance (wanted : List Byte) (item : FatDirectoryItem) : Decidable (Named wanted item) :=
  inferInstanceAs (Decidable (_ = _))

/-- No two live entries have one name. -/
def DistinctNames (entries : List FatDirectoryItem) : Prop :=
  entries.Pairwise (fun item other => ¬item.Deleted → ¬other.Deleted →
    istrncmp (fat16GetFullRelativeFilename item) (fat16GetFullRelativeFilename other) peachosMaxPath ≠ 0)

def liveTotal (entries : List FatDirectoryItem) : Nat := entries.countP (fun item => ¬item.Deleted)

def namedEntry (entries : List FatDirectoryItem) (wanted : List Byte) : Option FatDirectoryItem :=
  entries.find? (fun item => ¬item.Deleted ∧ Named wanted item)

/-- What a lookup is for: the item of the live entry of the name, or null. -/
def lookUp (entries : List FatDirectoryItem) (wanted : List Byte) : KernelProg Addr :=
  match namedEntry entries wanted with
  | some item => fat16NewFatItemForDirectoryItem item
  | none => pure 0

/-- Of the entries that go by the name, the live one is among the first entries, as many as
are live, and the deleted ones are not. -/
def InReach (entries : List FatDirectoryItem) (wanted : List Byte) : Prop :=
  ∀ i item, entries[i]? = some item → Named wanted item →
    (item.Deleted → liveTotal entries ≤ i) ∧ (¬item.Deleted → i < liveTotal entries)

def slotItem (kernel : Kernel) (directory : FatDirectory) (i : Nat) : FatDirectoryItem :=
  fatDirectoryItemAt kernel.memory.bytes (directory.item + BitVec.ofNat 32 (i * fatDirectoryItemSize))

/-- A directory as it is loaded: `entries` are those before the end mark. The driver counts
the live ones, and its table has as many slots at least. -/
structure LoadedDirectory (kernel : Kernel) (directory : FatDirectory) (entries : List FatDirectoryItem) :
    Prop where
  marked : ∀ item ∈ entries, item.filename.headD 0 ≠ endMark
  total : directory.total = liveTotal entries
  slots : ∀ i < liveTotal entries, entries[i]? = some (slotItem kernel directory i)
  owned : ∀ i < liveTotal entries * fatDirectoryItemSize,
    Owned kernel.memory.heap (directory.item + BitVec.ofNat 32 i)

/-- A string that was allocated for the name of a part. -/
structure NameAt (kernel : Kernel) (name : Addr) : Prop where
  held : HeldAt kernel.memory.heap name
  string : kernel.files name = some .pathString

def nameAt (kernel : Kernel) (name : Addr) : List Byte :=
  loadBytes kernel.memory.bytes name peachosMaxPath

section Names
variable {wanted : List Byte} {item other : FatDirectoryItem}

theorem Named.same (named : Named wanted item) (also : Named wanted other) :
    istrncmp (fat16GetFullRelativeFilename item) (fat16GetFullRelativeFilename other) peachosMaxPath = 0 := by
  unfold Named at named also
  rw [istrncmp_zero] at named also ⊢
  rw [named, also]

theorem lowered_head (str : List Byte) : (lowered str).head? = some deletedMark ↔
    str.head? = some deletedMark := by
  cases str with
  | nil => exact Iff.rfl
  | cons c rest =>
    by_cases terminator : c = 0
    · rw [terminator, lowered_zero, List.head?_nil, List.head?_cons]
      decide
    · rw [lowered_cons terminator, List.head?_cons, List.head?_cons, Option.some_inj, Option.some_inj,
        tolower_deleted]

theorem fullName_head (item : FatDirectoryItem) :
    (fat16GetFullRelativeFilename item).head? = some deletedMark ↔ item.Deleted := by
  have dot : ∀ rest : List Byte, (0x2E :: rest : List Byte).head? ≠ some deletedMark := by
    intro rest same
    exact absurd (Option.some.inj same) (by decide)
  have extension : ((if item.ext.headD 0 ≠ 0x00 ∧ item.ext.headD 0 ≠ 0x20 then
      0x2E :: fat16ToProperString 3 item.ext else [] : List Byte)).head? ≠ some deletedMark := by
    split
    · exact dot _
    · intro same
      cases same
  unfold fat16GetFullRelativeFilename FatDirectoryItem.Deleted
  cases item.filename with
  | nil =>
    constructor
    · intro same
      exact absurd same extension
    · intro zero
      exact absurd zero (by decide)
  | cons c rest =>
    rw [fat16ToProperString, List.headD_cons]
    by_cases blank : c = 0x00 ∨ c = 0x20
    · rw [if_pos blank, List.nil_append]
      constructor
      · intro same
        exact absurd same extension
      · intro mark
        rw [mark] at blank
        exact absurd blank (by decide)
    · rw [if_neg blank, List.cons_append, List.head?_cons, Option.some_inj]

theorem Named.deleted (named : Named wanted item) (also : Named wanted other) (deleted : item.Deleted) :
    other.Deleted := by
  have same := congrArg List.head? ((istrncmp_zero _ _ _).mp (named.same also))
  rw [List.head?_take, List.head?_take, if_neg (by decide), if_neg (by decide)] at same
  rw [← fullName_head, ← lowered_head, ← same, lowered_head, fullName_head]
  exact deleted

end Names

section Lookup
variable {tables : Set (Nat → Addr)} {base kernel after : Kernel} {directory : FatDirectory} {name : Addr}

/-- What the slots of a table and a name are is kept beside other items. -/
structure Lookable (kernel : Kernel) (directory : FatDirectory) (total : Nat) (name : Addr) : Prop where
  owned : ∀ i < total * fatDirectoryItemSize,
    Owned kernel.memory.heap (directory.item + BitVec.ofNat 32 i)
  named : NameAt kernel name

variable {total : Nat}

theorem Alongside.slotItem (alongside : Alongside tables base kernel)
    (lookable : Lookable base directory total name) {i : Nat} (bound : i < total) :
    slotItem kernel directory i = slotItem base directory i := by
  apply fatDirectoryItemAt_congr
  intro j inside
  have item : fatDirectoryItemSize = 32 := rfl
  have place : directory.item + BitVec.ofNat 32 (i * fatDirectoryItemSize) + BitVec.ofNat 32 j =
      directory.item + BitVec.ofNat 32 (i * fatDirectoryItemSize + j) := by
    rw [BitVec.add_assoc, ← BitVec.ofNat_add]
  rw [place]
  refine alongside.apart.bytes _ (lookable.owned _ ?_)
  calc
    i * fatDirectoryItemSize + j < (i + 1) * fatDirectoryItemSize := by
      rw [Nat.succ_mul]
      omega
    _ ≤ total * fatDirectoryItemSize := Nat.mul_le_mul_right _ bound

theorem Alongside.nameAt (alongside : Alongside tables base kernel)
    (lookable : Lookable base directory total name) : nameAt kernel name = nameAt base name := by
  apply loadBytes_congr
  intro i bound
  refine alongside.apart.bytes _ ?_
  obtain ⟨start, rfl, held⟩ := lookable.named.held
  refine ⟨start, start, held.chained, frameOf_within ?_ (by unfold peachosMaxPath at bound; omega)⟩
  exact heapBlockToAddress_aligned alongside.apart.kernelHeap.pool start

theorem Alongside.findLoop_step (alongside : Alongside tables base kernel)
    (lookable : Lookable base directory total name) {i : Nat} (bound : i < total) (remaining : Nat)
    (fItem : Addr) : fat16FindItemLoop directory name (remaining + 1) i fItem kernel =
      (if Named (PeachOS.nameAt base name) (PeachOS.slotItem base directory i) then
        fat16NewFatItemForDirectoryItem (PeachOS.slotItem base directory i) >>=
          fun found => fat16FindItemLoop directory name remaining (i + 1) found
      else fat16FindItemLoop directory name remaining (i + 1) fItem : KernelProg Addr) kernel := by
  have string : kernel.files name = some .pathString := by
    rw [alongside.apart.files name lookable.named.held, lookable.named.string]
  have slot := alongside.slotItem lookable bound
  have named := alongside.nameAt lookable
  unfold PeachOS.slotItem at slot
  unfold PeachOS.nameAt at named
  rw [fat16FindItemLoop, read_bind,
    bind_ok (Kernel.record_run string (rfl : FileRecord.asPathString _ = some ())), slot, named]
  rfl

theorem Alongside.findLoop_none (alongside : Alongside tables base kernel)
    (lookable : Lookable base directory total name) (remaining i : Nat) (bound : i + remaining ≤ total)
    (fItem : Addr) (unnamed : ∀ j, i ≤ j → j < i + remaining →
      ¬Named (PeachOS.nameAt base name) (PeachOS.slotItem base directory j)) :
    fat16FindItemLoop directory name remaining i fItem kernel = (.ok fItem, kernel) := by
  induction remaining generalizing i with
  | zero => rfl
  | succ remaining ih =>
    rw [alongside.findLoop_step lookable (by omega), if_neg (unnamed i le_rfl (by omega))]
    exact ih (i + 1) (by omega) (fun j low high => unnamed j (by omega) (by omega))

theorem Alongside.findLoop_one (alongside : Alongside tables base kernel)
    (lookable : Lookable base directory total name) (remaining i : Nat) (bound : i + remaining ≤ total)
    (fItem : Addr) {slot : Nat} (low : i ≤ slot) (high : slot < i + remaining)
    (named : Named (PeachOS.nameAt base name) (PeachOS.slotItem base directory slot))
    (others : ∀ j, i ≤ j → j < i + remaining → j ≠ slot →
      ¬Named (PeachOS.nameAt base name) (PeachOS.slotItem base directory j)) :
    fat16FindItemLoop directory name remaining i fItem kernel =
      fat16NewFatItemForDirectoryItem (PeachOS.slotItem base directory slot) kernel := by
  induction remaining generalizing i with
  | zero => omega
  | succ remaining ih =>
    rw [alongside.findLoop_step lookable (by omega)]
    by_cases here : i = slot
    · subst here
      rw [if_pos named, bind_run]
      generalize made : fat16NewFatItemForDirectoryItem (PeachOS.slotItem base directory i) kernel = result
      obtain ⟨result, after⟩ := result
      cases result with
      | error stop => rfl
      | ok found =>
        have later := Alongside.newFatItem _ _ _ _ alongside made
        exact later.findLoop_none lookable remaining (i + 1) (by omega) found
          (fun j lowJ highJ => others j (by omega) (by omega) (by omega))
    · rw [if_neg (others i le_rfl (by omega) here)]
      exact ih (i + 1) (by omega) (by omega) (by omega)
        (fun j lowJ highJ => others j (by omega) (by omega))

theorem Alongside.newFatItem_nonnull (alongside : Alongside tables base kernel)
    (room : 0 < (freeBlocks kernel.memory.heap).card) {item : FatDirectoryItem} {fItem : Addr}
    (run : fat16NewFatItemForDirectoryItem item kernel = (.ok fItem, after)) :
    fItem ≠ 0 ∧ HeldAt after.memory.heap fItem ∧ ¬HeldAt kernel.memory.heap fItem := by
  obtain ⟨ptr, first, allocated, allocates⟩ := Kernel.newRecord_page alongside.apart.sound.kernel 8
    (by decide) (by decide) room (.fatItem ⟨0, .directory⟩)
  obtain ⟨_, null | made⟩ := alongside.refl.apart.newFatItem alongside.recorded alongside.nonneg run
  · exfalso
    obtain ⟨made, second, again, steps⟩ := bind_eq_ok run
    cases allocated.symm.trans again
    rw [if_neg allocates.nonnull, null.1] at steps
    split at steps
    · obtain ⟨_, _, _, steps⟩ := bind_eq_ok steps
      obtain ⟨_, _, _, last⟩ := bind_eq_ok steps
      cases last
      exact allocates.nonnull rfl
    · obtain ⟨_, _, _, steps⟩ := bind_eq_ok steps
      obtain ⟨_, _, _, steps⟩ := bind_eq_ok steps
      obtain ⟨_, _, _, last⟩ := bind_eq_ok steps
      cases last
      exact allocates.nonnull rfl
  · exact made

theorem newFatItem_full (full : (freeBlocks kernel.memory.heap).card = 0)
    (item : FatDirectoryItem) : fat16NewFatItemForDirectoryItem item kernel = (.ok 0, kernel) := by
  have null : PeachOS.kzalloc 8 kernel.memory = (0, kernel.memory) := by
    rcases heapMalloc_marks kernel.memory.heap 8 with null | ⟨start, _, marks⟩
    · unfold PeachOS.kzalloc kmalloc
      rw [null]
      rfl
    · have member := mem_freeBlocks.mpr ⟨marks.bound, marks.startFree⟩
      rw [Finset.card_eq_zero.mp full] at member
      cases member
  have refused : Kernel.kzalloc 8 kernel = (.ok 0, kernel) := by
    unfold Kernel.kzalloc
    rw [null]
    exact if_neg (fun filled => filled.1 rfl)
  have unmade : Kernel.newRecord 8 (.fatItem ⟨0, .directory⟩) kernel = (.ok 0, kernel) :=
    (bind_ok refused).trans (congrFun (if_pos rfl) _)
  exact (bind_ok unmade).trans (congrFun (if_pos rfl) _)

theorem Alongside.findLoop_some (alongside : Alongside tables base kernel)
    (room : 0 < (freeBlocks kernel.memory.heap).card)
    (lookable : Lookable base directory total name) (remaining i : Nat) (bound : i + remaining ≤ total)
    (fItem : Addr) {slot : Nat} (low : i ≤ slot) (high : slot < i + remaining)
    (named : Named (PeachOS.nameAt base name) (PeachOS.slotItem base directory slot)) {found : Addr}
    (run : fat16FindItemLoop directory name remaining i fItem kernel = (.ok found, after)) :
    after ≠ kernel := by
  induction remaining generalizing i with
  | zero => omega
  | succ remaining ih =>
    rw [alongside.findLoop_step lookable (by omega)] at run
    by_cases here : Named (PeachOS.nameAt base name) (PeachOS.slotItem base directory i)
    · rw [if_pos here] at run
      obtain ⟨made, middle, first, rest⟩ := bind_eq_ok run
      obtain ⟨_, held, fresh⟩ := alongside.newFatItem_nonnull room first
      have later := Alongside.newFatItem _ _ _ _ alongside first
      have last := Alongside.findLoop _ _ _ _ _ _ _ _ later.refl rest
      rintro rfl
      exact fresh (last.apart.heldAt held)
    · rw [if_neg here] at run
      have later : i ≠ slot := by
        rintro rfl
        exact here named
      exact ih (i + 1) (by omega) (by omega) (by omega) run

theorem Alongside.findLoop_full (alongside : Alongside tables base kernel)
    (full : (freeBlocks kernel.memory.heap).card = 0) (lookable : Lookable base directory total name)
    (remaining i : Nat) (bound : i + remaining ≤ total) :
    fat16FindItemLoop directory name remaining i 0 kernel = (.ok 0, kernel) := by
  induction remaining generalizing i with
  | zero => rfl
  | succ remaining ih =>
    rw [alongside.findLoop_step lookable (by omega)]
    split
    · exact (bind_ok (newFatItem_full full _)).trans (ih (i + 1) (by omega))
    · exact ih (i + 1) (by omega)

end Lookup

section Directory
variable {tables : Set (Nat → Addr)} {kernel : Kernel} {directory : FatDirectory} {name : Addr}
  {entries : List FatDirectoryItem} {wanted : List Byte} {item : FatDirectoryItem}

theorem liveTotal_le (entries : List FatDirectoryItem) : liveTotal entries ≤ entries.length :=
  List.countP_le_length

theorem DistinctNames.unique (distinct : DistinctNames entries) {i j : Nat} {other : FatDirectoryItem}
    (here : entries[i]? = some item) (there : entries[j]? = some other) (live : ¬item.Deleted)
    (otherLive : ¬other.Deleted) (named : Named wanted item) (otherNamed : Named wanted other) : i = j := by
  obtain ⟨bound, rfl⟩ := List.getElem?_eq_some_iff.mp here
  obtain ⟨otherBound, rfl⟩ := List.getElem?_eq_some_iff.mp there
  have pairs := List.pairwise_iff_getElem.mp distinct
  rcases Nat.lt_trichotomy i j with less | same | more
  · exact absurd (named.same otherNamed) (pairs i j bound otherBound less live otherLive)
  · exact same
  · exact absurd (otherNamed.same named) (pairs j i otherBound bound more otherLive live)

theorem namedEntry_some (found : namedEntry entries wanted = some item) :
    ∃ i : Nat, entries[i]? = some item ∧ ¬item.Deleted ∧ Named wanted item := by
  have holds := List.find?_some found
  obtain ⟨i, bound, here⟩ := List.getElem_of_mem (List.mem_of_find?_eq_some found)
  have both := of_decide_eq_true holds
  exact ⟨i, List.getElem?_eq_some_iff.mpr ⟨bound, here⟩, both⟩

theorem namedEntry_none (absent : namedEntry entries wanted = none) {i : Nat}
    (here : entries[i]? = some item) (named : Named wanted item) : item.Deleted := by
  by_contra live
  have unfit := List.find?_eq_none.mp absent item (List.mem_of_getElem? here)
  exact unfit (decide_eq_true ⟨live, named⟩)

/-- A lookup in a directory as it is loaded makes the item of the live entry of the name, and
nothing if there is none, if and only if the entries of the name are in reach; but for a full
heap, on which no lookup makes anything. -/
theorem fat16FindItemInDirectory_lookUp (recorded : Recorded tables kernel)
    (sector : kernel.disk.sectorSize = peachosSectorSize) (loaded : LoadedDirectory kernel directory entries)
    (distinct : DistinctNames entries) (named : NameAt kernel name) :
    fat16FindItemInDirectory directory name kernel = lookUp entries (nameAt kernel name) kernel ↔
      InReach entries (nameAt kernel name) ∨ (freeBlocks kernel.memory.heap).card = 0 := by
  have alongside : Alongside tables kernel kernel := ⟨Apart.refl recorded.sound, recorded, sector⟩
  have lookable : Lookable kernel directory (liveTotal entries) name := ⟨loaded.owned, named⟩
  have find : fat16FindItemInDirectory directory name =
      fat16FindItemLoop directory name (liveTotal entries) 0 0 := by
    unfold fat16FindItemInDirectory
    rw [loaded.total, Int.toNat_natCast]
  rw [find]
  generalize wantedEq : nameAt kernel name = wanted
  -- no slot has the name unless its entry does
  have unnamed : (∀ i item, entries[i]? = some item → Named wanted item → liveTotal entries ≤ i) →
      fat16FindItemLoop directory name (liveTotal entries) 0 0 kernel = (.ok 0, kernel) := by
    intro outside
    refine alongside.findLoop_none lookable _ 0 (by omega) 0 ?_
    intro j _ high here
    have bound := outside j _ (loaded.slots j (by omega)) (wantedEq ▸ here)
    omega
  constructor
  · intro same
    by_cases room : (freeBlocks kernel.memory.heap).card = 0
    · exact Or.inr room
    · left
      intro i item here isNamed
      constructor
      · intro deleted
        by_contra inside
        have absent : namedEntry entries wanted = none := by
          by_contra present
          obtain ⟨other, found⟩ := Option.ne_none_iff_exists'.mp present
          obtain ⟨_, _, live, otherNamed⟩ := namedEntry_some found
          exact live (isNamed.deleted otherNamed deleted)
        unfold lookUp at same
        rw [absent] at same
        have slot := loaded.slots i (by omega)
        rw [here] at slot
        have found := Option.some.inj slot
        exact alongside.findLoop_some (by omega) lookable _ 0 (by omega) 0 (Nat.zero_le i) (by omega)
          (wantedEq ▸ found ▸ isNamed) same rfl
      · intro live
        by_contra outside
        have missed : fat16FindItemLoop directory name (liveTotal entries) 0 0 kernel = (.ok 0, kernel) := by
          apply unnamed
          intro j other there otherNamed
          have otherLive : ¬other.Deleted := fun deleted => live (otherNamed.deleted isNamed deleted)
          rw [distinct.unique there here otherLive live otherNamed isNamed]
          omega
        unfold lookUp at same
        rw [missed] at same
        cases found : namedEntry entries wanted with
        | none => exact live (namedEntry_none found here isNamed)
        | some other =>
          rw [found] at same
          exact (alongside.newFatItem_nonnull (by omega) same.symm).1 rfl
  · intro reach
    unfold lookUp
    cases reach with
    | inl reach =>
      cases found : namedEntry entries wanted with
      | none =>
        apply unnamed
        intro j other there otherNamed
        exact (reach j other there otherNamed).1 (namedEntry_none found there otherNamed)
      | some item =>
        obtain ⟨i, here, live, isNamed⟩ := namedEntry_some found
        have inside := (reach i item here isNamed).2 live
        have slot := loaded.slots i inside
        rw [here] at slot
        have slotSame := Option.some.inj slot
        rw [alongside.findLoop_one lookable _ 0 (by omega) 0 (Nat.zero_le i) (by omega)
          (wantedEq ▸ slotSame ▸ isNamed) ?_, ← slotSame]
        intro j _ high different there
        have entry := loaded.slots j (by omega)
        rw [wantedEq] at there
        have otherLive : ¬(slotItem kernel directory j).Deleted :=
          fun deleted => live (there.deleted isNamed deleted)
        exact different (distinct.unique entry here otherLive live there isNamed)
    | inr full =>
      rw [alongside.findLoop_full full lookable _ 0 (by omega)]
      cases namedEntry entries wanted with
      | none => rfl
      | some item => exact (newFatItem_full full item).symm

end Directory

section Image
variable {image : Image} {pos count : Nat}

def diskItem (image : Image) (pos : Nat) : FatDirectoryItem :=
  fatDirectoryItemAt (fun address => image (pos + address.toNat)) 0

def diskEntries (image : Image) (pos count : Nat) : List FatDirectoryItem :=
  (List.range count).map (fun i => diskItem image (pos + fatDirectoryItemSize * i))

theorem loadBytes_shift (bytes : Bytes) (ptr address : Addr) (length : Nat) :
    loadBytes (fun other => bytes (ptr + other)) address length = loadBytes bytes (ptr + address) length := by
  induction length generalizing address with
  | zero => rfl
  | succ length ih =>
    rw [loadBytes, loadBytes, ih, BitVec.add_assoc]

theorem fatDirectoryItemAt_shift (bytes : Bytes) (ptr address : Addr) :
    fatDirectoryItemAt (fun other => bytes (ptr + other)) address = fatDirectoryItemAt bytes (ptr + address) := by
  unfold fatDirectoryItemAt load16 load32
  rw [loadBytes_shift, loadBytes_shift]
  simp only [BitVec.add_assoc]

theorem fatDirectoryItemAt_disk {bytes : Bytes} {ptr : Addr}
    (same : ∀ i < 32, bytes (ptr + BitVec.ofNat 32 i) = image (pos + i)) :
    fatDirectoryItemAt bytes ptr = diskItem image pos := by
  have base : ptr + 0 = ptr := BitVec.add_zero ptr
  have zero : ∀ i, (0 : Addr) + BitVec.ofNat 32 i = BitVec.ofNat 32 i := fun i => BitVec.zero_add _
  rw [← base, ← fatDirectoryItemAt_shift]
  apply fatDirectoryItemAt_congr
  intro i bound
  rw [zero, same i bound, BitVec.toNat_ofNat, Nat.mod_eq_of_lt (by omega)]

theorem diskItem_mark (image : Image) (pos i : Nat) :
    (diskItem image (pos + fatDirectoryItemSize * i)).filename.headD 0 = entryMark image pos i := rfl

theorem liveTotal_disk (image : Image) (pos count : Nat) :
    liveTotal (diskEntries image pos count) = liveCount image pos count := by
  unfold liveTotal liveCount diskEntries
  rw [List.countP_map]
  apply List.countP_congr
  intro i _
  rw [Function.comp_apply, decide_eq_true_eq, bne_iff_ne]
  exact Iff.rfl

theorem liveCount_le (image : Image) (pos count : Nat) : liveCount image pos count ≤ count := by
  have bound := liveTotal_le (diskEntries image pos count)
  rw [liveTotal_disk] at bound
  unfold diskEntries at bound
  rwa [List.length_map, List.length_range] at bound

/-- A table with the bytes of a directory, as many as its live entries take. -/
theorem LoadedDirectory.of_disk {kernel : Kernel} {directory : FatDirectory}
    (entries : Entries image pos count) (total : directory.total = liveCount image pos count)
    (bytes : ∀ i < liveCount image pos count * fatDirectoryItemSize,
      kernel.memory.bytes (directory.item + BitVec.ofNat 32 i) = image (pos + i))
    (owned : ∀ i < liveCount image pos count * fatDirectoryItemSize,
      Owned kernel.memory.heap (directory.item + BitVec.ofNat 32 i)) :
    LoadedDirectory kernel directory (diskEntries image pos count) where
  marked := by
    intro item member
    obtain ⟨i, bound, rfl⟩ := List.mem_map.mp member
    rw [diskItem_mark]
    exact entries.before i (List.mem_range.mp bound)
  total := by rw [total, liveTotal_disk]
  slots := by
    intro i bound
    rw [liveTotal_disk] at bound
    have inside : i < count := by
      have le := liveCount_le image pos count
      omega
    unfold diskEntries slotItem
    rw [List.getElem?_map, List.getElem?_range inside, Option.map_some]
    refine congrArg some (fatDirectoryItemAt_disk ?_).symm
    intro j low
    have item : fatDirectoryItemSize = 32 := rfl
    have place : directory.item + BitVec.ofNat 32 (i * fatDirectoryItemSize) + BitVec.ofNat 32 j =
        directory.item + BitVec.ofNat 32 (i * fatDirectoryItemSize + j) := by
      rw [BitVec.add_assoc, ← BitVec.ofNat_add]
    rw [place, bytes, Nat.mul_comm, Nat.add_assoc]
    calc
      i * fatDirectoryItemSize + j < (i + 1) * fatDirectoryItemSize := by
        rw [Nat.succ_mul]
        omega
      _ ≤ liveCount image pos count * fatDirectoryItemSize := Nat.mul_le_mul_right _ bound
  owned := by
    rw [liveTotal_disk]
    exact owned

end Image

end PeachOS
