import Mathlib.Algebra.Order.Group.Multiset
import PeachOS.OpenOwners

/-! What a walk along the parts of a path owns at each step: the parts of the item that it is
at, and what it lost on the way. -/

namespace PeachOS
open Program ByteMemory

section Items
variable {tables : Set (Nat → Addr)} {base kernel after : Kernel} {owned parts gone : Multiset Addr}
  {log : List HeapEvent} {item ptr : Addr}

theorem Leaves.table (leaves : Leaves kernel after gone) {directory : FatDirectory}
    (table : TableAt kernel directory) (apart : directory.item ∉ gone) : TableAt after directory := by
  refine ⟨table.nonnull, table.placed.imp ?_ ?_⟩
  · intro placed
    rw [leaves.files _ apart, placed]
  · intro empty
    exact ⟨empty.1, leaves.free _ empty.2⟩

theorem ItemParts.leaves (made : ItemParts kernel item parts) (leaves : Leaves kernel after gone)
    (apart : ∀ ptr ∈ parts, ptr ∉ gone) : ItemParts after item parts := by
  have kept := leaves.files item (apart item made.mem)
  cases made with
  | @file clone entry here copy =>
    exact .file (kept.trans here) ((leaves.files clone (apart clone (by simp))).trans copy)
  | @directory target record here entry table =>
    exact .directory (kept.trans here) ((leaves.files target (apart target (by simp))).trans entry)
      (leaves.table table (apart record.item (by simp)))
  | stale here nonnull absent => exact .stale (kept.trans here) nonnull (leaves.absent _ absent)

theorem Stale.leaves (stale : Stale kernel item) (leaves : Leaves kernel after gone) (apart : item ∉ gone) :
    Stale after item := by
  obtain ⟨target, here, nonnull, absent⟩ := stale
  exact ⟨target, (leaves.files item apart).trans here, nonnull, leaves.absent _ absent⟩

theorem ItemParts.stale_leaves (made : ItemParts kernel item parts) (leaves : Leaves kernel after gone)
    (apart : ∀ ptr ∈ parts, ptr ∉ gone) (stale : Stale after item) : Stale kernel item := by
  obtain ⟨target, here, nonnull, absent⟩ := stale
  rw [leaves.files item (apart item made.mem)] at here
  cases made with
  | file file =>
    rw [file] at here
    cases here
  | @directory other record directory entry table =>
    rw [directory] at here
    cases here
    rw [leaves.files target (apart target (by simp)), entry] at absent
    cases absent
  | stale still nonnull absent => exact ⟨_, still, nonnull, absent⟩

theorem ItemParts.entered (made : ItemParts kernel item parts) {target : Addr} {directory : FatDirectory}
    (here : kernel.files item = some (.fatItem ⟨target, .directory⟩))
    (entry : kernel.files target = some (.fatDirectory directory)) :
    parts = directory.item ::ₘ target ::ₘ item ::ₘ 0 ∧ TableAt kernel directory := by
  cases made with
  | file file =>
    rw [file] at here
    cases here
  | directory same found table =>
    rw [same] at here
    cases here
    rw [found] at entry
    cases entry
    exact ⟨rfl, table⟩
  | stale same nonnull absent =>
    rw [same] at here
    cases here
    rw [absent] at entry
    cases entry

/-- Giving back an item takes all its parts, each of them once. -/
theorem Account.itemFree (account : Account tables base kernel (parts + owned)) (made : ItemParts kernel item parts)
    (run : (loggedItemFree item).run kernel = (.ok ((), log), after)) :
    Account tables base after owned ∧ settle log (parts + owned) = some owned ∧ Leaves kernel after parts := by
  unfold loggedItemFree at run
  obtain ⟨found, same, looked, steps⟩ := logged_lift_bind_ok run
  obtain ⟨rfl, old, place, kind⟩ := Kernel.record_ok looked
  cases made with
  | @file clone entry here copy =>
    rw [here] at place
    cases place
    cases kind
    obtain ⟨_, early, middle, late, logged, cloneFreed, itemFreed⟩ := logged_bind_ok steps
    rw [logged]
    obtain ⟨middleAccount, first, cloneLeaves⟩ := account.freeRecord (by simp) cloneFreed
    simp only [Multiset.cons_add, Multiset.zero_add, Multiset.erase_cons_head] at account middleAccount first ⊢
    obtain ⟨lastAccount, second, itemLeaves⟩ := middleAccount.freeRecord (by simp) itemFreed
    simp only [Multiset.erase_cons_head] at lastAccount second
    exact ⟨lastAccount, settle_trans first second, cloneLeaves.trans itemLeaves⟩
  | @directory target record here entry table =>
    rw [here] at place
    cases place
    cases kind
    obtain ⟨_, early, middle, late, logged, directoryFreed, itemFreed⟩ := logged_bind_ok steps
    rw [logged]
    simp only [Multiset.cons_add, Multiset.zero_add] at account ⊢
    obtain ⟨middleAccount, first, directoryLeaves, _⟩ := account.freeDirectory entry table.nonnull
      (by simp) (by simp) directoryFreed
    simp only [Multiset.erase_cons_head] at middleAccount first
    obtain ⟨lastAccount, second, itemLeaves⟩ := middleAccount.freeRecord (by simp) itemFreed
    simp only [Multiset.erase_cons_head] at lastAccount second
    exact ⟨lastAccount, settle_trans first second, directoryLeaves.trans itemLeaves⟩
  | @stale target here nonnull absent =>
    rw [here] at place
    cases place
    cases kind
    -- the directory is read again
    obtain ⟨_, early, middle, late, logged, directoryFreed, _⟩ := logged_bind_ok steps
    change (loggedFreeDirectory target).run same = _ at directoryFreed
    unfold loggedFreeDirectory at directoryFreed
    rw [if_neg nonnull] at directoryFreed
    obtain ⟨_, _, again, _⟩ := logged_lift_bind_ok directoryFreed
    obtain ⟨_, _, there, _⟩ := Kernel.record_ok again
    rw [absent] at there
    cases there

theorem Kernel.freeRecord_free {α : Type} (select : FileRecord → Option α)
    (kernelHeap : KernelHeap kernel.memory.heap) (free : FreeAt kernel.memory.heap ptr) (nonnull : ptr ≠ 0)
    (absent : kernel.files ptr = none) :
    ∃ after, Kernel.freeRecord select ptr kernel = (.ok (), after) ∧ after.files = kernel.files := by
  obtain ⟨block, address, bound, isFree⟩ := free
  have small := kernelHeap.pool.small
  have leads : heapAddressToBlock kernel.memory.heap ptr = block := by
    rw [address, heapAddressToBlock_block kernel.memory.heap block (by omega)]
  have inside : 0 ≤ heapAddressToBlock kernel.memory.heap ptr ∧
      heapAddressToBlock kernel.memory.heap ptr < kernel.memory.heap.table.total ∧
      heapGetEntryType (kernel.memory.heap.table.entries (heapAddressToBlock kernel.memory.heap ptr)) =
        heapBlockTableEntryFree := by
    rw [leads]
    exact ⟨Int.natCast_nonneg block, by exact_mod_cast bound, isFree⟩
  unfold Kernel.freeRecord
  rw [if_neg nonnull, read_bind]
  simp only [id_eq, absent]
  rw [if_pos inside]
  exact ⟨_, rfl, rfl⟩

theorem ItemParts.frees (made : ItemParts kernel item parts) (account : Account tables base kernel owned)
    (fresh : ¬Stale kernel item) : ∃ log after, (loggedItemFree item).run kernel = (.ok ((), log), after) := by
  suffices plain : ∃ after, fat16FatItemFree item kernel = (.ok (), after) by
    obtain ⟨after, run⟩ := plain
    rw [← forget_itemFree] at run
    obtain ⟨log, run⟩ := forget_eq_ok run
    exact ⟨log, after, run⟩
  unfold fat16FatItemFree
  cases made with
  | @file clone entry here copy =>
    rw [bind_ok (Kernel.record_run here (rfl : FileRecord.asFatItem _ = some ⟨clone, .file⟩))]
    obtain ⟨middle, cloneFreed, kept⟩ := Kernel.freeRecord_run FileRecord.asFatDirectoryItem copy rfl
    have different : item ≠ clone := by
      rintro rfl
      rw [here] at copy
      cases copy
    obtain ⟨last, itemFreed, _⟩ := Kernel.freeRecord_run FileRecord.asFatItem ((kept item different).trans here) rfl
    exact ⟨last, (bind_ok cloneFreed).trans itemFreed⟩
  | @directory target record here entry table =>
    rw [bind_ok (Kernel.record_run here (rfl : FileRecord.asFatItem _ = some ⟨target, .directory⟩))]
    have nonnull : target ≠ 0 := by
      rintro rfl
      rw [account.alongside.recorded.null] at entry
      cases entry
    -- the table is a record of its own, or none
    obtain ⟨first, tableFreed, targetKept, itemKept⟩ : ∃ first,
        Kernel.freeRecord FileRecord.asFatDirectoryTable record.item kernel = (.ok (), first) ∧
        first.files target = kernel.files target ∧ first.files item = kernel.files item := by
      rcases table.placed with placed | ⟨_, free⟩
      · obtain ⟨first, freed, kept⟩ := Kernel.freeRecord_run FileRecord.asFatDirectoryTable placed rfl
        refine ⟨first, freed, kept target ?_, kept item ?_⟩
        · intro same
          rw [same, placed] at entry
          cases entry
        · intro same
          rw [same, placed] at here
          cases here
      · obtain ⟨first, freed, kept⟩ := Kernel.freeRecord_free FileRecord.asFatDirectoryTable
          account.owns.sound.kernel free table.nonnull (account.unrecorded free)
        exact ⟨first, freed, congrFun kept target, congrFun kept item⟩
    obtain ⟨second, targetFreed, kept⟩ := Kernel.freeRecord_run FileRecord.asFatDirectory (targetKept.trans entry) rfl
    have different : item ≠ target := by
      rintro rfl
      rw [here] at entry
      cases entry
    obtain ⟨last, itemFreed, _⟩ := Kernel.freeRecord_run FileRecord.asFatItem
      ((kept item different).trans (itemKept.trans here)) rfl
    have directoryFreed : fat16FreeDirectory target kernel = (.ok (), second) := by
      unfold fat16FreeDirectory
      rw [if_neg nonnull, bind_ok (Kernel.record_run entry (rfl : FileRecord.asFatDirectory _ = some record)),
        if_pos table.nonnull, bind_ok tableFreed]
      exact targetFreed
    exact ⟨last, (bind_ok directoryFreed).trans itemFreed⟩
  | stale here nonnull absent => exact absurd ⟨_, here, nonnull, absent⟩ fresh

end Items

/-- The entries that a search makes items of one after the other: those that go by the name
when it comes to them. -/
def searchEntries (directory : FatDirectory) (name : Addr) : (remaining i : Nat) → Kernel → List FatDirectoryItem
  | 0, _, _ => []
  | remaining + 1, i, kernel =>
      let entry := slotItem kernel directory i
      if Named (nameAt kernel name) entry then
        entry :: searchEntries directory name remaining (i + 1) (fat16NewFatItemForDirectoryItem entry kernel).2
      else searchEntries directory name remaining (i + 1) kernel

/-- The item that a search returns: the last that it made. The others are lost. -/
structure FoundItem (tables : Set (Nat → Addr)) (base kernel after : Kernel) (owned : Multiset Addr)
    (entries : List FatDirectoryItem) (log : List HeapEvent) (item : Addr) (parts lost : Multiset Addr) : Prop where
  made : ItemParts after item parts
  account : Account tables base after (parts + (lost + owned))
  books : settle log owned = some (parts + (lost + owned))
  new : ∀ ptr ∈ parts, ¬HeldAt kernel.memory.heap ptr
  sole : ∀ entry, entries = [entry] →
    lost = 0 ∧ (Stale after item ↔ entry.Subdirectory ∧ ¬TableReads kernel.disk entry)
  several : 1 < entries.length →
    ∃ ptr ∈ lost, HeldAt after.memory.heap ptr ∧ ptr ∉ parts ∧ ¬HeldAt kernel.memory.heap ptr

section Search
variable {tables : Set (Nat → Addr)} {base kernel after : Kernel} {owned : Multiset Addr} {log : List HeapEvent}
  {directory : FatDirectory} {name item : Addr}

theorem Account.search_apart (account : Account tables base kernel owned) {remaining i : Nat} {fItem : Addr}
    (run : (loggedFindLoop directory name remaining i fItem).run kernel = (.ok (item, log), after)) :
    Apart kernel after := by
  have plain := forget_ok run
  rw [forget_findLoop] at plain
  exact (Alongside.findLoop _ _ _ _ _ _ _ _ account.alongside.refl plain).apart

/-- A search finds nothing and does nothing, or it returns an item of its own. -/
theorem Account.findLoop (account : Account tables base kernel owned) {remaining i : Nat} {fItem : Addr}
    (run : (loggedFindLoop directory name remaining i fItem).run kernel = (.ok (item, log), after))
    (enough : NoneRefused log) :
    searchEntries directory name remaining i kernel = [] ∧ item = fItem ∧ log = [] ∧ after = kernel ∨
    searchEntries directory name remaining i kernel ≠ [] ∧ ∃ parts lost, FoundItem tables base kernel after owned
      (searchEntries directory name remaining i kernel) log item parts lost := by
  induction remaining generalizing kernel i fItem owned log with
  | zero =>
    obtain ⟨same, nothing, kept⟩ := logged_pure_ok run
    exact Or.inl ⟨rfl, same, nothing, kept⟩
  | succ remaining ih =>
    unfold loggedFindLoop at run
    obtain ⟨bytes, same, looked, steps⟩ := logged_lift_bind_ok run
    cases looked
    obtain ⟨_, same, string, steps⟩ := logged_lift_bind_ok steps
    obtain ⟨rfl, _⟩ := Kernel.record_ok string
    change (if Named (nameAt same name) (slotItem same directory i) then
      (loggedNewFatItem (slotItem same directory i) >>= fun found =>
        loggedFindLoop directory name remaining (i + 1) found)
      else loggedFindLoop directory name remaining (i + 1) fItem : LoggedKernel Addr).run same = _ at steps
    unfold searchEntries
    dsimp only
    by_cases named : Named (nameAt same name) (slotItem same directory i)
    · rw [if_pos named] at steps
      obtain ⟨first, madeLog, middle, rest, logged, newItem, steps⟩ := logged_bind_ok steps
      rw [logged, noneRefused_append] at enough
      obtain ⟨parts, made⟩ := account.newFatItem newItem enough.1
      have plain := forget_ok newItem
      rw [forget_newFatItem] at plain
      rw [if_pos named, plain, logged]
      have firstApart : Apart same middle :=
        (Alongside.newFatItem _ _ _ _ account.alongside.refl plain).apart
      refine Or.inr ⟨List.cons_ne_nil _ _, ?_⟩
      rcases ih made.account steps enough.2 with ⟨none', rfl, nothing, rfl⟩ | ⟨some', later, lost, found⟩
      · rw [none', nothing, List.append_nil]
        refine ⟨parts, 0, made.made, ?_, ?_, made.new, ?_, ?_⟩
        · rw [Multiset.zero_add]
          exact made.account
        · rw [Multiset.zero_add]
          exact made.books
        · intro entry sole
          obtain rfl := List.head_eq_of_cons_eq sole
          exact ⟨rfl, made.stale⟩
        · intro several
          exact absurd several (by simp)
      · -- the item of this entry is not returned
        refine ⟨later, lost + parts, found.made, ?_, ?_, ?_, ?_, ?_⟩
        · rw [Multiset.add_assoc]
          exact found.account
        · rw [Multiset.add_assoc]
          exact settle_trans made.books found.books
        · intro ptr member heldAt
          exact found.new ptr member (firstApart.heldAt heldAt)
        · intro entry sole
          exact absurd (List.tail_eq_of_cons_eq sole) some'
        · intro _
          obtain ⟨record, here⟩ := made.made.record
          have heldAt := made.account.placed first _ here
          refine ⟨first, Multiset.mem_add.mpr (Or.inr made.made.mem), ?_, ?_, made.new first made.made.mem⟩
          · exact (made.account.search_apart steps).heldAt heldAt
          · exact fun member => found.new first member heldAt
    · rw [if_neg named] at steps ⊢
      exact ih account steps enough

theorem searchEntries_none (alongside : Alongside tables base kernel) {total : Nat}
    (lookable : Lookable base directory total name) (remaining i : Nat) (bound : i + remaining ≤ total)
    (unnamed : ∀ j, i ≤ j → j < i + remaining → ¬Named (nameAt base name) (slotItem base directory j)) :
    searchEntries directory name remaining i kernel = [] := by
  induction remaining generalizing i with
  | zero => rfl
  | succ remaining ih =>
    unfold searchEntries
    dsimp only
    rw [alongside.slotItem lookable (by omega), alongside.nameAt lookable, if_neg (unnamed i le_rfl (by omega))]
    exact ih (i + 1) (by omega) (fun j low high => unnamed j (by omega) (by omega))

theorem searchEntries_one (alongside : Alongside tables base kernel) {total : Nat}
    (lookable : Lookable base directory total name) (remaining i : Nat) (bound : i + remaining ≤ total) {slot : Nat}
    (low : i ≤ slot) (high : slot < i + remaining) (named : Named (nameAt base name) (slotItem base directory slot))
    (others : ∀ j, i ≤ j → j < i + remaining → j ≠ slot → ¬Named (nameAt base name) (slotItem base directory j))
    (made : fat16NewFatItemForDirectoryItem (slotItem base directory slot) kernel = (.ok item, after)) :
    searchEntries directory name remaining i kernel = [slotItem base directory slot] := by
  induction remaining generalizing i with
  | zero => omega
  | succ remaining ih =>
    unfold searchEntries
    dsimp only
    rw [alongside.slotItem lookable (by omega), alongside.nameAt lookable]
    by_cases here : i = slot
    · subst here
      have later := Alongside.newFatItem _ _ _ _ alongside made
      rw [if_pos named, made, searchEntries_none later lookable remaining (i + 1) (by omega)
        (fun j lowJ highJ => others j (by omega) (by omega) (by omega))]
    · rw [if_neg (others i le_rfl (by omega) here)]
      exact ih (i + 1) (by omega) (by omega) (by omega) (fun j lowJ highJ => others j (by omega) (by omega))

end Search

/-- An item that was found, or none. -/
inductive Current (kernel : Kernel) (item : Addr) : Multiset Addr → Prop where
  | missing (null : item = 0) : Current kernel item 0
  | found {parts : Multiset Addr} (made : ItemParts kernel item parts) : Current kernel item parts

/-- What a part of the walk makes of the parts that it is given: those of the item it comes to,
and what it loses. It loses nothing, and no directory that was freed stays with its item, if
and only if it is `orderly` and did not start with one that was (`stale`). -/
structure Walked (tables : Set (Nat → Addr)) (base kernel after : Kernel) (given owned : Multiset Addr)
    (orderly stale : Prop) (log : List HeapEvent) (item : Addr) (parts lost : Multiset Addr) : Prop where
  current : Current after item parts
  account : Account tables base after (parts + (lost + owned))
  books : settle log (given + owned) = some (parts + (lost + owned))
  kept : ∀ ptr, HeldAt kernel.memory.heap ptr → ptr ∉ given →
    HeldAt after.memory.heap ptr ∧ ptr ∉ parts ∧ after.files ptr = kernel.files ptr
  fine : orderly → lost = 0 ∧ (Stale after item → stale)
  spoilt : ¬orderly ∨ stale → Stale after item ∨
    ∃ ptr ∈ lost, HeldAt after.memory.heap ptr ∧ ptr ∉ parts ∧ (HeldAt kernel.memory.heap ptr → ptr ∈ given)

/-- A search takes one entry at most, and if that is a directory its table can be read. -/
structure TakesOne (kernel : Kernel) (directory : FatDirectory) (name : Addr) : Prop where
  sole : (searchEntries directory name directory.total.toNat 0 kernel).length ≤ 1
  reads : ∀ entry ∈ searchEntries directory name directory.total.toNat 0 kernel,
    entry.Subdirectory → TableReads kernel.disk entry

/-- From an item on each part is found in the directory of the item before it, once, and what
is found can be read if it is a directory. -/
def OrderlyFrom : (names : List Addr) → (kernel : Kernel) → (item : Addr) → Prop
  | [], _, _ => True
  | name :: names, kernel, item => ∃ directory, Enters kernel item directory ∧ TakesOne kernel directory name ∧
      ∀ next middle left, fat16FindItemInDirectory directory name kernel = (.ok next, middle) →
        fat16FatItemFree item middle = (.ok (), left) → OrderlyFrom names left next

section Walk
variable {tables : Set (Nat → Addr)} {base kernel middle after : Kernel} {given owned parts lost : Multiset Addr}
  {orderly stale : Prop} {log : List HeapEvent} {directory : FatDirectory} {name item : Addr}

theorem Current.not_stale (current : Current kernel item parts) (recorded : Recorded tables kernel)
    (empty : parts = 0) : ¬Stale kernel item := by
  intro stale
  obtain ⟨target, here, _⟩ := stale
  cases current with
  | missing null =>
    rw [null, recorded.null] at here
    cases here
  | found made =>
    have member := made.mem
    rw [empty] at member
    exact Multiset.notMem_zero _ member

theorem Current.leaves (current : Current kernel item parts) {gone : Multiset Addr} (leaves : Leaves kernel after gone)
    (apart : ∀ ptr ∈ parts, ptr ∉ gone) : Current after item parts := by
  cases current with
  | missing null => exact .missing null
  | found made => exact .found (made.leaves leaves apart)

theorem Current.stale_iff (current : Current kernel item parts) {gone : Multiset Addr} (leaves : Leaves kernel after gone)
    (apart : ∀ ptr ∈ parts, ptr ∉ gone) (recorded : Recorded tables kernel) (still : Recorded tables after) :
    Stale after item ↔ Stale kernel item := by
  cases current with
  | missing null =>
    have before : Current kernel item 0 := .missing null
    have later : Current after item 0 := .missing null
    exact iff_of_false (later.not_stale still rfl) (before.not_stale recorded rfl)
  | found made =>
    exact ⟨made.stale_leaves leaves apart, fun stale => stale.leaves leaves (apart item made.mem)⟩

theorem Walked.trans {first second : List HeapEvent} {next : Addr} {nextParts later : Multiset Addr} {also : Prop}
    (early : Walked tables base kernel middle given owned orderly stale first next nextParts lost)
    (late : Walked tables base middle after nextParts (lost + owned) also (Stale middle next) second item parts later) :
    Walked tables base kernel after given owned (orderly ∧ also) stale (first ++ second) item parts (later + lost) where
  current := late.current
  account := by
    rw [Multiset.add_assoc]
    exact late.account
  books := by
    rw [Multiset.add_assoc]
    exact settle_trans early.books late.books
  kept := by
    intro ptr heldAt outside
    obtain ⟨heldMiddle, apart, same⟩ := early.kept ptr heldAt outside
    obtain ⟨heldAfter, apartAfter, sameAfter⟩ := late.kept ptr heldMiddle apart
    exact ⟨heldAfter, apartAfter, sameAfter.trans same⟩
  fine := by
    intro both
    obtain ⟨none', fresh⟩ := early.fine both.1
    obtain ⟨none'', stays⟩ := late.fine both.2
    exact ⟨by rw [none', none'', Multiset.add_zero], fun stale => fresh (stays stale)⟩
  spoilt := by
    intro spoilt
    have carried : ¬also ∨ Stale middle next → Stale after item ∨ ∃ ptr ∈ later + lost,
        HeldAt after.memory.heap ptr ∧ ptr ∉ parts ∧ (HeldAt kernel.memory.heap ptr → ptr ∈ given) := by
      intro goesWrong
      refine (late.spoilt goesWrong).imp_right ?_
      intro found
      obtain ⟨ptr, member, heldAt, apart, new⟩ := found
      refine ⟨ptr, Multiset.mem_add.mpr (Or.inl member), heldAt, apart, ?_⟩
      intro before
      by_contra outside
      obtain ⟨heldMiddle, notNext, _⟩ := early.kept ptr before outside
      exact notNext (new heldMiddle)
    by_cases here : ¬orderly ∨ stale
    · rcases early.spoilt here with staleNext | ⟨ptr, member, heldAt, apart, new⟩
      · exact carried (Or.inr staleNext)
      · obtain ⟨heldAfter, apartAfter, _⟩ := late.kept ptr heldAt apart
        exact Or.inr ⟨ptr, Multiset.mem_add.mpr (Or.inr member), heldAfter, apartAfter, new⟩
    · rw [not_or, not_not] at here
      exact carried (Or.inl (fun goesOn => (spoilt.resolve_right here.2) ⟨here.1, goesOn⟩))

theorem Account.findItem (account : Account tables base kernel owned)
    (run : (loggedFindItem directory name).run kernel = (.ok (item, log), after)) (enough : NoneRefused log) :
    ∃ parts lost, Walked tables base kernel after 0 owned (TakesOne kernel directory name) False log item parts lost ∧
      (directory.total.toNat = 0 → after = kernel ∧ parts = 0 ∧ lost = 0) := by
  have apart := account.search_apart run
  rcases account.findLoop run enough with ⟨none', rfl, rfl, rfl⟩ | ⟨some', parts, lost, found⟩
  · have takes : TakesOne after directory name := by
      refine ⟨by rw [none']; exact Nat.zero_le 1, ?_⟩
      intro entry member
      rw [none'] at member
      cases member
    have owns : (0 : Multiset Addr) + (0 + owned) = owned := by rw [Multiset.zero_add, Multiset.zero_add]
    refine ⟨0, 0, ⟨.missing rfl, owns.symm ▸ account, ?_, ?_, ?_, ?_⟩, fun _ => ⟨rfl, rfl, rfl⟩⟩
    · rw [owns, Multiset.zero_add]
      rfl
    · intro ptr heldAt _
      exact ⟨heldAt, Multiset.notMem_zero ptr, rfl⟩
    · intro _
      refine ⟨rfl, ?_⟩
      exact Current.not_stale (.missing rfl) account.alongside.recorded rfl
    · intro spoilt
      exact absurd takes (spoilt.resolve_right id)
  · refine ⟨parts, lost, ⟨.found found.made, found.account, ?_, ?_, ?_, ?_⟩, ?_⟩
    · rw [Multiset.zero_add]
      exact found.books
    · intro ptr heldAt _
      exact ⟨apart.heldAt heldAt, fun member => found.new ptr member heldAt, apart.files ptr heldAt⟩
    · intro takes
      obtain ⟨entry, sole⟩ := List.length_eq_one_iff.mp
        (le_antisymm takes.sole (List.length_pos_iff.mpr some'))
      obtain ⟨nothing, outcome⟩ := found.sole entry sole
      refine ⟨nothing, ?_⟩
      intro isStale
      obtain ⟨subdirectory, fails⟩ := outcome.mp isStale
      exact fails (takes.reads entry (by rw [sole]; exact List.mem_singleton_self entry) subdirectory)
    · intro spoilt
      have untaken := spoilt.resolve_right id
      by_cases several : 1 < (searchEntries directory name directory.total.toNat 0 kernel).length
      · obtain ⟨ptr, member, heldAt, outside, new⟩ := found.several several
        exact Or.inr ⟨ptr, member, heldAt, outside, fun before => absurd before new⟩
      · obtain ⟨entry, sole⟩ := List.length_eq_one_iff.mp
          (le_antisymm (not_lt.mp several) (List.length_pos_iff.mpr some'))
        left
        rw [(found.sole entry sole).2]
        by_contra reads
        rw [not_and, not_not] at reads
        refine untaken ⟨not_lt.mp several, ?_⟩
        intro other member
        rw [sole, List.mem_singleton] at member
        rw [member]
        exact reads
    · intro empty
      rw [empty] at some'
      exact absurd rfl some'

theorem Account.entered_held (account : Account tables base kernel owned) {target : Addr}
    (here : kernel.files item = some (.fatItem ⟨target, .directory⟩))
    (entry : kernel.files target = some (.fatDirectory directory)) (table : TableAt kernel directory)
    (entries : directory.total.toNat ≠ 0) :
    ∀ ptr ∈ directory.item ::ₘ target ::ₘ item ::ₘ 0, HeldAt kernel.memory.heap ptr := by
  intro ptr member
  rw [Multiset.mem_cons, Multiset.mem_cons, Multiset.mem_cons] at member
  obtain rfl | rfl | rfl | none' := member
  · exact account.placed _ _ (table.placed.resolve_right (fun empty => entries empty.1))
  · exact account.placed _ _ entry
  · exact account.placed _ _ here
  · exact absurd none' (Multiset.notMem_zero _)

/-- A step down: the next part is looked up in the directory of the item, and the item is
given back. -/
theorem Account.stepDown (account : Account tables base kernel (parts + owned)) (made : ItemParts kernel item parts)
    (enters : Enters kernel item directory) {next : Addr} {first second : List HeapEvent}
    (searched : (loggedFindItem directory name).run kernel = (.ok (next, first), middle))
    (freed : (loggedItemFree item).run middle = (.ok ((), second), after)) (enough : NoneRefused first) :
    ∃ nextParts lost, Walked tables base kernel after parts owned (TakesOne kernel directory name) False
      (first ++ second) next nextParts lost := by
  obtain ⟨target, here, entry⟩ := enters
  obtain ⟨same, table⟩ := made.entered here entry
  obtain ⟨nextParts, lost, found, empty⟩ := account.findItem searched enough
  have apart := account.search_apart searched
  have held : directory.total.toNat ≠ 0 → ∀ ptr ∈ parts, HeldAt kernel.memory.heap ptr := by
    intro entries
    rw [same]
    exact account.entered_held here entry table entries
  -- nothing of the item was found or lost by the search
  have outside : ∀ ptr ∈ nextParts, ptr ∉ parts := by
    intro ptr member inside
    by_cases none' : directory.total.toNat = 0
    · rw [(empty none').2.1] at member
      exact Multiset.notMem_zero ptr member
    · exact (found.kept ptr (held none' ptr inside) (Multiset.notMem_zero ptr)).2.1 member
  have still : ItemParts middle item parts := by
    by_cases none' : directory.total.toNat = 0
    · rw [(empty none').1]
      exact made
    · have files : ∀ ptr ∈ parts, middle.files ptr = kernel.files ptr :=
        fun ptr member => apart.files ptr (held none' ptr member)
      rw [same] at files ⊢
      refine .directory ((files item (by simp)).trans here) ((files target (by simp)).trans entry)
        ⟨table.nonnull, Or.inl ?_⟩
      rw [files directory.item (by simp)]
      exact table.placed.resolve_right (fun empty => none' empty.1)
  have middleAccount : Account tables base middle (parts + (nextParts + (lost + owned))) := by
    have moved := found.account
    rwa [add_left_comm lost, add_left_comm nextParts] at moved
  obtain ⟨lastAccount, books, leaves⟩ := middleAccount.itemFree still freed
  have unmoved : Stale after next ↔ Stale middle next := found.current.stale_iff leaves outside
    found.account.alongside.recorded lastAccount.alongside.recorded
  refine ⟨nextParts, lost, found.current.leaves leaves outside, lastAccount, ?_, ?_, ?_, ?_⟩
  · have moved := found.books
    rw [Multiset.zero_add, add_left_comm lost, add_left_comm nextParts] at moved
    exact settle_trans moved books
  · intro ptr heldAt notItem
    obtain ⟨heldMiddle, notNext, sameMiddle⟩ := found.kept ptr heldAt (Multiset.notMem_zero ptr)
    exact ⟨leaves.held ptr notItem heldMiddle, notNext, (leaves.files ptr notItem).trans sameMiddle⟩
  · intro takes
    obtain ⟨nothing, fresh⟩ := found.fine takes
    exact ⟨nothing, fun stale => fresh (unmoved.mp stale)⟩
  · intro spoilt
    rcases found.spoilt spoilt with stale | ⟨ptr, member, heldAt, notNext, new⟩
    · exact Or.inl (unmoved.mpr stale)
    · right
      have notItem : ptr ∉ parts := by
        intro inside
        by_cases none' : directory.total.toNat = 0
        · rw [(empty none').2.2] at member
          exact Multiset.notMem_zero ptr member
        · exact Multiset.notMem_zero ptr (new (held none' ptr inside))
      refine ⟨ptr, member, leaves.held ptr notItem heldAt, notNext, ?_⟩
      intro before
      exact absurd (new before) (Multiset.notMem_zero ptr)

theorem Enters.unique {other : FatDirectory} (enters : Enters kernel item directory) (also : Enters kernel item other) :
    other = directory := by
  obtain ⟨target, here, entry⟩ := enters
  obtain ⟨target', here', entry'⟩ := also
  rw [here] at here'
  cases here'
  rw [entry] at entry'
  cases entry'
  rfl

theorem OrderlyFrom.cons_iff {names : List Addr} {next : Addr} (enters : Enters kernel item directory)
    (found : fat16FindItemInDirectory directory name kernel = (.ok next, middle))
    (freed : fat16FatItemFree item middle = (.ok (), after)) :
    OrderlyFrom (name :: names) kernel item ↔ TakesOne kernel directory name ∧ OrderlyFrom names after next := by
  constructor
  · intro orderly
    obtain ⟨other, also, takes, rest⟩ := orderly
    rw [enters.unique also] at takes rest
    exact ⟨takes, rest next middle after found freed⟩
  · intro both
    refine ⟨directory, enters, both.1, ?_⟩
    intro next' middle' after' found' freed'
    rw [found] at found'
    cases found'
    rw [freed] at freed'
    cases freed'
    exact both.2

theorem Account.stopAtFile (account : Account tables base kernel (parts + owned)) {target name : Addr} {names : List Addr}
    (here : kernel.files item = some (.fatItem ⟨target, .file⟩)) (made : ItemParts kernel item parts) :
    Walked tables base kernel kernel parts owned (OrderlyFrom (name :: names) kernel item) (Stale kernel item)
      [] 0 0 parts where
  current := .missing rfl
  account := by rwa [Multiset.zero_add]
  books := by rw [Multiset.zero_add]; rfl
  kept := fun ptr heldAt _ => ⟨heldAt, Multiset.notMem_zero ptr, rfl⟩
  fine := by
    intro orderly
    obtain ⟨_, ⟨_, directory, _⟩, _⟩ := orderly
    rw [here] at directory
    cases directory
  spoilt := by
    intro _
    exact Or.inr ⟨item, made.mem, account.placed item _ here, Multiset.notMem_zero item, fun _ => made.mem⟩

/-- The walk along the parts that are left. -/
theorem Account.walk (fuel : Nat) {part result : Addr} {names : List Addr}
    (account : Account tables base kernel (parts + owned)) (current : Current kernel item parts)
    (list : PartList base part names)
    (run : (loggedEntryLoop fuel part item).run kernel = (.ok (result, log), after)) (enough : NoneRefused log) :
    ∃ last lost, Walked tables base kernel after parts owned (OrderlyFrom names kernel item) (Stale kernel item)
      log result last lost := by
  induction fuel generalizing kernel parts owned part names item log with
  | zero =>
    obtain ⟨_, impossible⟩ := logged_lift_ok run
    cases impossible
  | succ fuel ih =>
    unfold loggedEntryLoop at run
    cases list with
    | nil =>
      rw [if_pos rfl] at run
      obtain ⟨rfl, rfl, rfl⟩ := logged_pure_ok run
      refine ⟨parts, 0, current, ?_, ?_, ?_, ?_, ?_⟩
      · rwa [Multiset.zero_add]
      · rw [Multiset.zero_add]
        rfl
      · exact fun ptr heldAt outside => ⟨heldAt, outside, rfl⟩
      · exact fun _ => ⟨rfl, id⟩
      · exact fun spoilt => Or.inl (spoilt.resolve_left (not_not.mpr trivial))
    | @cons _ following name names nonnull held here rest =>
      rw [if_neg nonnull] at run
      obtain ⟨record, same, looked, steps⟩ := logged_lift_bind_ok run
      obtain ⟨unchanged, old, place, kind⟩ := Kernel.record_ok looked
      rw [unchanged] at steps
      have made : ItemParts kernel item parts := by
        cases current with
        | missing null =>
          rw [null, account.alongside.recorded.null] at place
          cases place
        | found made => exact made
      have itemHere : kernel.files item = some (.fatItem record) := by
        cases old <;> cases kind
        exact place
      obtain ⟨target, itemType⟩ := record
      cases itemType with
      | file =>
        rw [if_pos (show FatItemType.file ≠ .directory by decide)] at steps
        obtain ⟨rfl, rfl, rfl⟩ := logged_pure_ok steps
        exact ⟨0, parts, account.stopAtFile itemHere made⟩
      | directory =>
        rw [if_neg (show ¬FatItemType.directory ≠ .directory from not_not.mpr rfl)] at steps
        obtain ⟨directory, same, entered, steps⟩ := logged_lift_bind_ok steps
        obtain ⟨unchanged, oldEntry, entryPlace, entryKind⟩ := Kernel.record_ok entered
        rw [unchanged] at steps
        have entry : kernel.files target = some (.fatDirectory directory) := by
          cases oldEntry <;> cases entryKind
          exact entryPlace
        obtain ⟨found, same, partLooked, steps⟩ := logged_lift_bind_ok steps
        obtain ⟨unchanged, oldPart, partPlace, partKind⟩ := Kernel.record_ok partLooked
        rw [unchanged] at steps
        rw [account.alongside.apart.files part held, here] at partPlace
        cases partPlace
        cases partKind
        obtain ⟨next, first, middle, restLog, logged, searched, steps⟩ := logged_bind_ok steps
        obtain ⟨_, second, left, third, logged', freed, steps⟩ := logged_bind_ok steps
        rw [logged, logged', noneRefused_append, noneRefused_append] at enough
        have enters : Enters kernel item directory := ⟨target, itemHere, entry⟩
        obtain ⟨nextParts, lost, down⟩ := account.stepDown made enters searched freed enough.1
        obtain ⟨last, later, walked⟩ := ih down.account down.current rest steps enough.2.2
        have plainSearch := forget_ok searched
        have plainFree := forget_ok freed
        rw [forget_findItem] at plainSearch
        rw [forget_itemFree] at plainFree
        -- the item is no stale one, as its directory is there
        have fresh : Stale kernel item ↔ False := by
          refine iff_false_intro ?_
          intro stale
          obtain ⟨other, also, _, gone⟩ := stale
          rw [itemHere] at also
          cases also
          rw [entry] at gone
          cases gone
        rw [logged, logged', ← List.append_assoc, propext fresh,
          propext (OrderlyFrom.cons_iff enters plainSearch plainFree)]
        exact ⟨last, later + lost, down.trans walked⟩

end Walk

end PeachOS
