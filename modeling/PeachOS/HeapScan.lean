import PeachOS.Heap
import PeachOS.Lib.Interval

/-! What the three loops of `heap.c` compute, in closed form. -/

namespace PeachOS
open BlockPool

def EntryFree (entries : Int → Entry) (block : Nat) : Prop :=
  heapGetEntryType (entries block) = heapBlockTableEntryFree

instance (entries : Int → Entry) (block : Nat) : Decidable (EntryFree entries block) :=
  inferInstanceAs (Decidable (_ = _))

def HasNext (entry : Entry) : Prop := entry &&& heapBlockHasNext ≠ 0

instance (entry : Entry) : Decidable (HasNext entry) := inferInstanceAs (Decidable (_ ≠ _))

/-- Free runs of `length` blocks in the table. -/
abbrev FitsAt (heap : Heap) (length start : Nat) : Prop :=
  FreeRun (EntryFree heap.table.entries) heap.table.total length start

/-- The free run that the scan is in when it stops at the end of the table. -/
def TrailingRun (entries : Int → Entry) (total start : Nat) : Prop :=
  start < total ∧ ∀ block, start ≤ block → block < total → EntryFree entries block

/-- The scan found the leftmost fitting run, or it reached the end of the table. -/
def ScanOutcome (entries : Int → Entry) (total want : Nat) (result : Int) : Prop :=
  (0 < want ∧ ∃ start : Nat, result = start ∧
    LeastFreeRun (EntryFree entries) total want start) ∨
  ((0 < want → ∀ start, ¬FreeRun (EntryFree entries) total want start) ∧
    ((result = -1 ∧ (0 < total → ¬EntryFree entries (total - 1))) ∨
      ∃ start : Nat, result = start ∧ TrailingRun entries total start))

/-- What the scan knows before it looks at entry `i`. -/
structure Scanning (entries : Int → Entry) (total want i bc : Nat) (bs : Int) : Prop where
  short : bc ≤ i
  start : bs = if bc = 0 then -1 else ((i - bc : Nat) : Int)
  free : ∀ block, i - bc ≤ block → block < i → EntryFree entries block
  unfinished : 0 < want → bc < want
  later : 0 < want → ∀ run, FreeRun (EntryFree entries) total want run → i - bc ≤ run
  stopped : bc = 0 → 0 < i → ¬EntryFree entries (i - 1)

theorem Scanning.taken {entries : Int → Entry} {total want i bc : Nat} {bs : Int}
    (scanning : Scanning entries total want i bc bs) (taken : ¬EntryFree entries i) :
    Scanning entries total want (i + 1) 0 (-1) where
  short := Nat.zero_le _
  start := rfl
  free := by intro block low high; omega
  unfinished := id
  later := by
    intro positive run fits
    have known := scanning.later positive run fits
    have avoided := fits.avoids taken
    have := scanning.unfinished positive
    by_contra early
    have crossing : run ≤ i ∧ i < run + want := by omega
    omega
  stopped := by intro _ _; simpa using taken

theorem Scanning.next {entries : Int → Entry} {total want i bc : Nat} {bs : Int}
    (scanning : Scanning entries total want i bc bs) (free : EntryFree entries i)
    (more : bc + 1 ≠ want) :
    Scanning entries total want (i + 1) (bc + 1) (if bs = -1 then (i : Int) else bs) where
  short := Nat.succ_le_succ scanning.short
  start := by
    rw [scanning.start]
    have := scanning.short
    by_cases empty : bc = 0
    · simp [empty]
    · simp only [empty, if_false, Nat.add_eq_zero_iff, false_and]
      rw [if_neg (by omega)]
      omega
  free := by
    intro block low high
    by_cases here : block = i
    · exact here ▸ free
    · exact scanning.free block (by omega) (by omega)
  unfinished := by
    intro positive
    have := scanning.unfinished positive
    omega
  later := by
    intro positive run fits
    have := scanning.later positive run fits
    omega
  stopped := by intro impossible; omega

theorem Scanning.found {entries : Int → Entry} {total want i bc : Nat} {bs : Int}
    (scanning : Scanning entries total want i bc bs) (free : EntryFree entries i)
    (inside : i < total) (reached : bc + 1 = want) :
    ScanOutcome entries total want (if bs = -1 then (i : Int) else bs) := by
  have short := scanning.short
  have result : (if bs = -1 then (i : Int) else bs) = ((i - bc : Nat) : Int) := by
    rw [scanning.start]
    by_cases empty : bc = 0
    · simp [empty]
    · simp only [empty, if_false]
      rw [if_neg (by omega)]
  refine Or.inl ⟨by omega, i - bc, result, ⟨by omega, ?_⟩, scanning.later (by omega)⟩
  intro block low high
  by_cases here : block = i
  · exact here ▸ free
  · exact scanning.free block low (by omega)

theorem Scanning.exhausted {entries : Int → Entry} {total want bc : Nat} {bs : Int}
    (scanning : Scanning entries total want total bc bs) :
    ScanOutcome entries total want bs := by
  have short := scanning.short
  refine Or.inr ⟨?_, ?_⟩
  · intro positive run fits
    have bound := scanning.later positive run fits
    have := scanning.unfinished positive
    have := fits.1
    omega
  · by_cases empty : bc = 0
    · left
      refine ⟨by rw [scanning.start, if_pos empty], fun positive => ?_⟩
      exact_mod_cast scanning.stopped empty positive
    · right
      refine ⟨total - bc, by rw [scanning.start, if_neg empty], by omega, ?_⟩
      exact scanning.free

theorem heapGetStartBlockLoop_outcome (entries : Int → Entry) (totalBlocks : Word) (total : Nat)
    (remaining i bc : Nat) (bs : Int) (position : i + remaining = total)
    (scanning : Scanning entries total totalBlocks.toNat i bc bs) :
    ScanOutcome entries total totalBlocks.toNat
      (heapGetStartBlockLoop entries totalBlocks remaining i bc bs) := by
  induction remaining generalizing i bc bs with
  | zero =>
    have atEnd : i = total := by omega
    subst atEnd
    exact scanning.exhausted
  | succ remaining ih =>
    simp only [heapGetStartBlockLoop]
    by_cases free : EntryFree entries i
    · have zero : heapGetEntryType (entries i) = heapBlockTableEntryFree := free
      rw [if_neg (not_not.mpr zero)]
      by_cases reached : bc + 1 = totalBlocks.toNat
      · rw [if_pos reached]
        exact scanning.found free (by omega) reached
      · rw [if_neg reached]
        exact ih _ _ _ (by omega) (scanning.next free reached)
    · have nonzero : heapGetEntryType (entries i) ≠ heapBlockTableEntryFree := free
      rw [if_pos nonzero]
      exact ih _ _ _ (by omega) (scanning.taken free)

theorem heapGetStartBlock_outcome (heap : Heap) (totalBlocks : Word) :
    (heapGetStartBlock heap totalBlocks = -ENOMEM ∧
        (0 < totalBlocks.toNat → ∀ start, ¬FitsAt heap totalBlocks.toNat start) ∧
        (0 < heap.table.total → ¬EntryFree heap.table.entries (heap.table.total - 1))) ∨
      ∃ start : Nat, heapGetStartBlock heap totalBlocks = start ∧
        ScanOutcome heap.table.entries heap.table.total totalBlocks.toNat start := by
  have outcome := heapGetStartBlockLoop_outcome heap.table.entries totalBlocks heap.table.total
    heap.table.total 0 0 (-1) (by omega)
    ⟨le_rfl, rfl, by omega, id, fun _ _ _ => Nat.zero_le _, by omega⟩
  unfold heapGetStartBlock
  rcases outcome with ⟨positive, start, found, least⟩ | ⟨none, ⟨missing, last⟩ | ⟨start, found, tail⟩⟩
  · refine Or.inr ⟨start, ?_, Or.inl ⟨positive, start, rfl, least⟩⟩
    rw [found, if_neg (by omega)]
  · exact Or.inl ⟨by rw [missing, if_pos rfl], none, last⟩
  · refine Or.inr ⟨start, ?_, Or.inr ⟨none, Or.inr ⟨start, rfl, tail⟩⟩⟩
    rw [found, if_neg (by omega)]

theorem heapGetStartBlock_least (heap : Heap) (totalBlocks : Word) (positive : 0 < totalBlocks.toNat)
    (fits : ∃ start, FitsAt heap totalBlocks.toNat start) :
    ∃ start : Nat, heapGetStartBlock heap totalBlocks = start ∧
      LeastFreeRun (EntryFree heap.table.entries) heap.table.total totalBlocks.toNat start := by
  obtain ⟨run, fits⟩ := fits
  rcases heapGetStartBlock_outcome heap totalBlocks with ⟨_, none, _⟩ | ⟨start, result, outcome⟩
  · exact absurd fits (none positive run)
  · rcases outcome with ⟨_, found, same, least⟩ | ⟨none, _⟩
    · obtain rfl : start = found := by exact_mod_cast same
      exact ⟨start, result, least⟩
    · exact absurd fits (none positive run)

/-- The scan that gets to the end of the table stops in a taken entry. -/
def LastTaken (heap : Heap) : Prop :=
  0 < heap.table.total → ¬EntryFree heap.table.entries (heap.table.total - 1)

/-- `heap_malloc_blocks` refuses, or takes the leftmost fitting run, or else the free end
of the table. -/
inductive BlocksOutcome (heap : Heap) (count : Word) : Addr × Heap → Prop where
  | refused (none : 0 < count.toNat → ∀ start, ¬FitsAt heap count.toNat start)
      (last : LastTaken heap) : BlocksOutcome heap count (0, heap)
  | fitting (start : Nat) (positive : 0 < count.toNat)
      (least : LeastFreeRun (EntryFree heap.table.entries) heap.table.total count.toNat start) :
      BlocksOutcome heap count
        (heapBlockToAddress heap start, heapMarkBlocksTaken heap start count.toInt.toNat)
  | trailing (start : Nat) (none : 0 < count.toNat → ∀ start, ¬FitsAt heap count.toNat start)
      (tail : TrailingRun heap.table.entries heap.table.total start) :
      BlocksOutcome heap count
        (heapBlockToAddress heap start, heapMarkBlocksTaken heap start count.toInt.toNat)

theorem heapMallocBlocks_outcome (heap : Heap) (count : Word) :
    BlocksOutcome heap count (heapMallocBlocks heap count) := by
  unfold heapMallocBlocks
  dsimp only
  rcases heapGetStartBlock_outcome heap count with ⟨missing, none, last⟩ | ⟨start, result, outcome⟩
  · rw [missing, if_pos (by decide)]
    exact .refused none last
  · rw [result, if_neg (by omega)]
    rcases outcome with ⟨positive, least, same, run⟩ | ⟨none, ⟨negative, _⟩ | ⟨tail, same, run⟩⟩
    · obtain rfl : start = least := by exact_mod_cast same
      exact .fitting start positive run
    · omega
    · obtain rfl : start = tail := by exact_mod_cast same
      exact .trailing start none run

/-- The entry that a chain of `length` blocks has at position `offset`. -/
def chainEntry (length offset : Nat) : Entry :=
  (if offset = 0 then heapBlockTableEntryTaken ||| heapBlockIsFirst
    else heapBlockTableEntryTaken) |||
  (if offset + 1 < length then heapBlockHasNext else 0)

theorem chainEntry_taken (length offset : Nat) :
    heapGetEntryType (chainEntry length offset) = heapBlockTableEntryTaken := by
  unfold chainEntry
  split <;> split <;> decide

theorem chainEntry_hasNext (length offset : Nat) :
    HasNext (chainEntry length offset) ↔ offset + 1 < length := by
  unfold chainEntry
  split <;> split <;> simp_all [HasNext]

theorem heapMarkBlocksTakenLoop_entry (start : Int) (length done remaining : Nat)
    (entries : Int → Entry) (sum : done + remaining = length) (i : Int) :
    heapMarkBlocksTakenLoop (start + length - 1) remaining (start + done) (chainEntry length done)
        entries i =
      if start + done ≤ i ∧ i < start + length then chainEntry length (i - start).toNat
      else entries i := by
  induction remaining generalizing done entries with
  | zero =>
    rw [heapMarkBlocksTakenLoop, if_neg (by omega)]
  | succ remaining ih =>
    have following : (if start + (done : Int) ≠ start + length - 1 - 1 then
        heapBlockTableEntryTaken ||| heapBlockHasNext else heapBlockTableEntryTaken) =
        if remaining = 0 then heapBlockTableEntryTaken ||| heapBlockHasNext
        else chainEntry length (done + 1) := by
      by_cases last : remaining = 0
      · rw [if_pos last, if_pos (by omega)]
      · rw [if_neg last]
        unfold chainEntry
        rw [if_neg (by omega : ¬done + 1 = 0)]
        by_cases more : done + 1 + 1 < length
        · rw [if_pos (by omega), if_pos more]
        · rw [if_neg (by omega), if_neg more]
          rfl
    rw [heapMarkBlocksTakenLoop, following]
    cases remaining with
    | zero =>
      simp only [heapMarkBlocksTakenLoop, Function.update_apply]
      by_cases here : i = start + done
      · rw [if_pos here, if_pos (by omega), here]
        congr 1
        omega
      · rw [if_neg here, if_neg (by omega)]
    | succ remaining =>
      rw [if_neg (Nat.succ_ne_zero remaining), show start + (done : Int) + 1 = start + ((done + 1 : Nat) : Int) by omega,
        ih (done + 1) _ (by omega)]
      by_cases later : start + ((done + 1 : Nat) : Int) ≤ i ∧ i < start + length
      · rw [if_pos later, if_pos (by omega)]
      · rw [if_neg later, Function.update_apply]
        by_cases here : i = start + done
        · rw [if_pos here, if_pos (by omega), here]
          congr 1
          omega
        · rw [if_neg here, if_neg (by omega)]

/-- Marking writes exactly one chain, wherever it starts and however far it reaches. -/
theorem heapMarkBlocksTaken_entry (heap : Heap) (start : Int) (length : Nat) (i : Int) :
    (heapMarkBlocksTaken heap start length).table.entries i =
      if start ≤ i ∧ i < start + length then chainEntry length (i - start).toNat
      else heap.table.entries i := by
  have first : (if length > 1 then
      heapBlockTableEntryTaken ||| heapBlockIsFirst ||| heapBlockHasNext
      else heapBlockTableEntryTaken ||| heapBlockIsFirst) =
      chainEntry length 0 := by
    unfold chainEntry
    by_cases long : length > 1
    · rw [if_pos long, if_pos rfl, if_pos (by omega)]
    · rw [if_neg long, if_pos rfl, if_neg (by omega)]
      rfl
  simp only [heapMarkBlocksTaken, Heap.withEntries_entries, first]
  have count : (start + (length : Int) - 1 + 1 - start).toNat = length := by omega
  rw [count]
  simpa using heapMarkBlocksTakenLoop_entry start length 0 length heap.table.entries (by omega) i

/-- The walk of `heap_mark_blocks_free` from `start` gets to `i`. -/
def FreeReaches (entries : Int → Entry) (total : Nat) (start i : Int) : Prop :=
  start ≤ i ∧ i < total ∧ ∀ j, start ≤ j → j < i → HasNext (entries j)

theorem FreeReaches.congr {before after : Int → Entry} {total : Nat} {start i : Int}
    (same : ∀ j, start ≤ j → j < i → after j = before j) :
    FreeReaches after total start i ↔ FreeReaches before total start i := by
  unfold FreeReaches
  refine and_congr_right fun _ => and_congr_right fun _ => ?_
  exact forall_congr' fun j => forall_congr' fun low => forall_congr' fun high => by
    rw [same j low high]

theorem heapMarkBlocksFreeLoop_entry (total : Nat) (remaining : Nat) (start : Int)
    (entries : Int → Entry) (count : remaining = ((total : Int) - start).toNat) (i : Int) :
    (FreeReaches entries total start i →
      heapMarkBlocksFreeLoop remaining start entries i = heapBlockTableEntryFree) ∧
    (¬FreeReaches entries total start i →
      heapMarkBlocksFreeLoop remaining start entries i = entries i) := by
  induction remaining generalizing start entries with
  | zero =>
    refine ⟨fun reaches => ?_, fun _ => rfl⟩
    have := reaches.1
    have := reaches.2.1
    omega
  | succ remaining ih =>
    simp only [heapMarkBlocksFreeLoop]
    by_cases stop : entries start &&& heapBlockHasNext = 0
    · rw [if_pos stop, Function.update_apply]
      constructor
      · intro reaches
        have here : i = start := by
          by_contra further
          exact reaches.2.2 start le_rfl (by have := reaches.1; omega) stop
        rw [if_pos here]
      · intro misses
        rw [if_neg]
        rintro rfl
        exact misses ⟨le_rfl, by omega, by omega⟩
    · rw [if_neg stop]
      have rest := ih (start + 1) (Function.update entries start heapBlockTableEntryFree) (by omega)
      have unchanged : ∀ j, start + 1 ≤ j → j < i →
          Function.update entries start heapBlockTableEntryFree j = entries j := by
        intro j low _
        rw [Function.update_apply, if_neg (by omega)]
      rw [FreeReaches.congr unchanged] at rest
      by_cases here : i = start
      · subst here
        have misses : ¬FreeReaches entries total (i + 1) i := fun reaches => by
          have := reaches.1
          omega
        have kept := rest.2 misses
        rw [Function.update_self] at kept
        refine ⟨fun _ => kept, fun missed => ?_⟩
        exact absurd ⟨le_rfl, by omega, by omega⟩ missed
      · rw [Function.update_apply, if_neg here] at rest
        have shift : FreeReaches entries total start i ↔ FreeReaches entries total (start + 1) i := by
          constructor
          · rintro ⟨low, high, linked⟩
            exact ⟨by omega, high, fun j lowJ highJ => linked j (by omega) highJ⟩
          · rintro ⟨low, high, linked⟩
            refine ⟨by omega, high, fun j lowJ highJ => ?_⟩
            by_cases first : j = start
            · exact first ▸ stop
            · exact linked j (by omega) highJ
        rw [shift]
        exact rest

/-- Freeing clears exactly the entries its walk gets to. -/
theorem heapMarkBlocksFree_reached {heap : Heap} {start i : Int}
    (reaches : FreeReaches heap.table.entries heap.table.total start i) :
    (heapMarkBlocksFree heap start).table.entries i = heapBlockTableEntryFree :=
  (heapMarkBlocksFreeLoop_entry _ _ start _ rfl i).1 reaches

theorem heapMarkBlocksFree_missed {heap : Heap} {start i : Int}
    (misses : ¬FreeReaches heap.table.entries heap.table.total start i) :
    (heapMarkBlocksFree heap start).table.entries i = heap.table.entries i :=
  (heapMarkBlocksFreeLoop_entry _ _ start _ rfl i).2 misses

end PeachOS
