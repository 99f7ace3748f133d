import PeachOS.HeapRoom
import PeachOS.Lib.WriteLog
import PeachOS.Lib.Run

/-! Page tables as one flat map from pages to entries, over any run of the mapping
calls of `paging.c`. -/

namespace PeachOS
open ByteMemory BlockPool Transition WriteLog

theorem directoryIndex_lt (page : Addr) : directoryIndex page < 1024 := by
  have := page.isLt
  unfold directoryIndex pagingTotalEntriesPerTable pagingPageSize
  omega

theorem tableIndex_lt (page : Addr) : tableIndex page < 1024 := by
  unfold tableIndex pagingTotalEntriesPerTable pagingPageSize
  omega

theorem indexes_inj {left right : Addr} (leftAligned : PageAligned left)
    (rightAligned : PageAligned right) (sameDirectory : directoryIndex left = directoryIndex right)
    (sameTable : tableIndex left = tableIndex right) : left = right := by
  apply BitVec.eq_of_toNat_eq
  unfold PageAligned pagingPageSize at leftAligned rightAligned
  unfold directoryIndex pagingTotalEntriesPerTable pagingPageSize at sameDirectory
  unfold tableIndex pagingTotalEntriesPerTable pagingPageSize at sameTable
  omega

theorem pagingGetIndexes_aligned {page : Addr} (aligned : PageAligned page) :
    pagingGetIndexes page = (0, some (directoryIndex page, tableIndex page)) := by
  unfold pagingGetIndexes
  rw [(pagingIsAligned_iff page).mpr aligned]
  rfl

/-- The tables hold `view page` for every page. -/
structure FlatMap (bytes : Bytes) (chunk directory : Addr) (tables : Nat → Addr)
    (view : Addr → Word) : Prop where
  paged : PageTables bytes chunk directory tables
  entry : ∀ page, PageAligned page → pagingGet bytes directory page = view page

section Tables
variable {bytes : Bytes} {chunk directory : Addr} {tables : Nat → Addr} {view : Addr → Word}

theorem PageTables.pagingGet (paged : PageTables bytes chunk directory tables) {page : Addr}
    (aligned : PageAligned page) : pagingGet bytes directory page =
      load32 bytes (slot (tables (directoryIndex page)) (tableIndex page)) := by
  unfold PeachOS.pagingGet
  rw [pagingGetIndexes_aligned aligned]
  simp only [Option.getD_some]
  rw [paged.directoryWords _ (directoryIndex_lt page)]

theorem PageTables.pagingSet (paged : PageTables bytes chunk directory tables) {virt : Addr}
    (aligned : PageAligned virt) (val : Word) : pagingSet bytes directory virt val =
      (0, store32 bytes (slot (tables (directoryIndex virt)) (tableIndex virt)) val) := by
  unfold PeachOS.pagingSet
  rw [(pagingIsAligned_iff virt).mpr aligned, pagingGetIndexes_aligned aligned]
  simp only [Bool.not_true, Bool.false_eq_true, if_false]
  rw [paged.directoryWords _ (directoryIndex_lt virt)]

theorem PageTables.store (paged : PageTables bytes chunk directory tables) {i b : Nat}
    (iBound : i < 1024) (bBound : b < 1024) (val : Word) :
    PageTables (store32 bytes (slot (tables i) b) val) chunk directory tables :=
  paged.congr
    (fun _ inChunk => store32_outside _ _ (paged.tablesAligned i iBound) bBound
      (inChunk ▸ (paged.notChunk i iBound).symm))
    (fun _ inDirectory => store32_outside _ _ (paged.tablesAligned i iBound) bBound
      (inDirectory ▸ (paged.notDirectory i iBound).symm))

theorem FlatMap.set (flat : FlatMap bytes chunk directory tables view) {virt : Addr}
    (aligned : PageAligned virt) (val : Word) :
    (pagingSet bytes directory virt val).1 = 0 ∧
      FlatMap (pagingSet bytes directory virt val).2 chunk directory tables
        (Function.update view virt val) := by
  have iBound := directoryIndex_lt virt
  have paged := flat.paged.store iBound (tableIndex_lt virt) val
  rw [flat.paged.pagingSet aligned]
  refine ⟨rfl, paged, fun page pageAligned => ?_⟩
  rw [paged.pagingGet pageAligned, load32_store32_slot _ _ (flat.paged.tablesAligned _ iBound)
    (flat.paged.tablesAligned _ (directoryIndex_lt page)) (tableIndex_lt virt) (tableIndex_lt page)]
  by_cases here : page = virt
  · rw [if_pos ⟨by rw [here], by rw [here]⟩, here, Function.update_self]
  · rw [if_neg, Function.update_of_ne here, ← flat.paged.pagingGet pageAligned]
    · exact flat.entry page pageAligned
    · rintro ⟨sameTable, sameIndex⟩
      have sameDirectory := flat.paged.tablesDistinct _ (directoryIndex_lt page) _ iBound sameTable
      exact here (indexes_inj pageAligned aligned sameDirectory sameIndex)

theorem PageTables.set_outside (paged : PageTables bytes chunk directory tables) {virt address : Addr}
    (aligned : PageAligned virt) (val : Word) (outside : ∀ i < 1024, frameOf address ≠ tables i) :
    (PeachOS.pagingSet bytes directory virt val).2 address = bytes address := by
  have iBound := directoryIndex_lt virt
  rw [paged.pagingSet aligned]
  exact store32_outside _ _ (paged.tablesAligned _ iBound) (tableIndex_lt virt) (outside _ iBound)

end Tables

theorem einvarg_negative : ¬(0 : Int) ≤ -EINVARG := by decide

theorem pagingSet_unaligned {bytes : Bytes} {directory virt : Addr} {val : Word}
    (unaligned : ¬PageAligned virt) : pagingSet bytes directory virt val = (-EINVARG, bytes) := by
  have unalignedBool : pagingIsAligned virt = false :=
    Bool.eq_false_iff.mpr (fun yes => unaligned ((pagingIsAligned_iff virt).mp yes))
  unfold pagingSet
  rw [unalignedBool]
  rfl

theorem pagingMap_eq {bytes : Bytes} {chunk virt phys : Addr} {flags : Word}
    (virtAligned : PageAligned virt) (physAligned : PageAligned phys) :
    pagingMap bytes chunk virt phys flags =
      pagingSet bytes (directoryEntry bytes chunk) virt (phys ||| flags) := by
  unfold PageAligned at virtAligned physAligned
  unfold pagingMap
  rw [if_neg (by omega)]

theorem pagingMap_unaligned {bytes : Bytes} {chunk virt phys : Addr} {flags : Word}
    (unaligned : ¬(PageAligned virt ∧ PageAligned phys)) :
    pagingMap bytes chunk virt phys flags = (-EINVARG, bytes) := by
  unfold PageAligned at unaligned
  unfold pagingMap
  rw [if_pos (by omega)]

theorem PageAligned.next {address : Addr} (aligned : PageAligned address) :
    PageAligned (address + BitVec.ofNat 32 pagingPageSize) := by
  unfold PageAligned pagingPageSize at *
  rw [BitVec.toNat_add, BitVec.toNat_ofNat]
  omega

/-- The pages that `count` rounds of `paging_map_range` write, in order, each with
`entry` of its physical page. -/
def pageRun {Value : Type} (entry : Addr → Value) :
    (count : Nat) → (virt phys : Addr) → List (Addr × Value)
  | 0, _, _ => []
  | count + 1, virt, phys =>
      (virt, entry phys) :: pageRun entry count (virt + BitVec.ofNat 32 pagingPageSize)
        (phys + BitVec.ofNat 32 pagingPageSize)

theorem nextPage_add (address : Addr) (i : Nat) :
    address + BitVec.ofNat 32 pagingPageSize + BitVec.ofNat 32 (i * pagingPageSize) =
      address + BitVec.ofNat 32 ((i + 1) * pagingPageSize) := by
  rw [BitVec.add_assoc, ← BitVec.ofNat_add, Nat.succ_mul, Nat.add_comm]

theorem lastWrite_pageRun_missed {Value : Type} {entry : Addr → Value} {count : Nat}
    {virt phys page : Addr}
    (missed : ∀ i < count, page ≠ virt + BitVec.ofNat 32 (i * pagingPageSize)) :
    lastWrite (pageRun entry count virt phys) page = none := by
  induction count generalizing virt phys with
  | zero => rfl
  | succ count ih =>
    have first := missed 0 (Nat.succ_pos count)
    rw [Nat.zero_mul, BitVec.add_zero] at first
    rw [pageRun, lastWrite, if_neg first, ih]
    · rfl
    · intro i bound
      rw [nextPage_add]
      exact missed (i + 1) (by omega)

/-- A run of at most 2²⁰ pages does not come back to a page it wrote. -/
theorem lastWrite_pageRun {Value : Type} {entry : Addr → Value} {count i : Nat}
    {virt phys : Addr} (bound : i < count) (short : count ≤ 2 ^ 20) :
    lastWrite (pageRun entry count virt phys) (virt + BitVec.ofNat 32 (i * pagingPageSize)) =
      some (entry (phys + BitVec.ofNat 32 (i * pagingPageSize))) := by
  induction count generalizing virt phys i with
  | zero => omega
  | succ count ih =>
    rw [pageRun, lastWrite]
    cases i with
    | zero =>
      rw [Nat.zero_mul, BitVec.add_zero, BitVec.add_zero, if_pos rfl, lastWrite_pageRun_missed]
      · rfl
      · intro j jBound same
        rw [nextPage_add] at same
        have values := congrArg BitVec.toNat same
        rw [BitVec.toNat_add, BitVec.toNat_ofNat] at values
        unfold pagingPageSize at values
        have := virt.isLt
        omega
    | succ i =>
      rw [← nextPage_add, ih (by omega) (by omega), nextPage_add]
      rfl

section Loop
variable {chunk directory : Addr} {tables : Nat → Addr}

theorem FlatMap.mapRangeLoop {bytes : Bytes} {view : Addr → Word} (flags : Word) (count : Nat) {virt phys : Addr}
    (res : Int) (nonnegative : 0 ≤ res) (flat : FlatMap bytes chunk directory tables view)
    (virtAligned : PageAligned virt) (physAligned : PageAligned phys) :
    0 ≤ (pagingMapRangeLoop chunk flags count virt phys res bytes).1 ∧
      FlatMap (pagingMapRangeLoop chunk flags count virt phys res bytes).2 chunk directory tables
        (replay view (pageRun (· ||| flags) count virt phys)) := by
  induction count generalizing bytes view virt phys res with
  | zero => exact ⟨nonnegative, flat⟩
  | succ count ih =>
    have set := flat.set virtAligned (phys ||| flags)
    rw [← flat.paged.chunkWord, ← pagingMap_eq virtAligned physAligned, flat.paged.chunkWord] at set
    obtain ⟨zero, mapped⟩ := set
    simp only [pagingMapRangeLoop, pageRun, replay_cons]
    rw [if_neg (by omega)]
    exact ih _ (by omega) mapped virtAligned.next physAligned.next

theorem FlatMap.mapRangeLoop_outside {bytes : Bytes} {view : Addr → Word} (flags : Word) (count : Nat)
    {virt phys address : Addr} (res : Int) (flat : FlatMap bytes chunk directory tables view)
    (virtAligned : PageAligned virt) (physAligned : PageAligned phys)
    (outside : ∀ i < 1024, frameOf address ≠ tables i) :
    (pagingMapRangeLoop chunk flags count virt phys res bytes).2 address = bytes address := by
  induction count generalizing bytes view virt phys res with
  | zero => rfl
  | succ count ih =>
    have set := flat.set virtAligned (phys ||| flags)
    have kept := flat.paged.set_outside virtAligned (phys ||| flags) outside
    rw [← flat.paged.chunkWord, ← pagingMap_eq virtAligned physAligned, flat.paged.chunkWord] at set
    rw [← flat.paged.chunkWord, ← pagingMap_eq virtAligned physAligned] at kept
    obtain ⟨zero, mapped⟩ := set
    simp only [pagingMapRangeLoop]
    rw [if_neg (by omega)]
    exact (ih _ mapped virtAligned.next physAligned.next).trans kept

theorem pagingMapRange_unaligned (bytes : Bytes) (chunk : Addr) {virt phys : Addr} (count : Int)
    (flags : Word)
    (unaligned : ¬(PageAligned virt ∧ PageAligned phys)) :
    (pagingMapRange bytes chunk virt phys count flags).2 = bytes ∧
      (0 ≤ (pagingMapRange bytes chunk virt phys count flags).1 → count.toNat = 0) := by
  unfold pagingMapRange
  cases size : count.toNat with
  | zero => exact ⟨rfl, fun _ => rfl⟩
  | succ rest =>
    rw [pagingMapRangeLoop, pagingMap_unaligned unaligned]
    simp [EINVARG]

end Loop

/-- The four calls that change a chunk's entries. -/
inductive PagingCall where
  | map (virt phys : Addr) (flags : Word)
  | mapRange (virt phys : Addr) (count : Int) (flags : Word)
  | mapTo (virt phys physEnd : Addr) (flags : Word)
  | set (virt : Addr) (val : Word)

def PagingCall.run (chunk : Addr) (bytes : Bytes) : PagingCall → Int × Bytes
  | map virt phys flags => pagingMap bytes chunk virt phys flags
  | mapRange virt phys count flags => pagingMapRange bytes chunk virt phys count flags
  | mapTo virt phys physEnd flags => pagingMapTo bytes chunk virt phys physEnd flags
  | set virt val => pagingSet bytes (directoryEntry bytes chunk) virt val

/-- The flag arguments below the page size; the value of `paging_set` is arbitrary. -/
def PagingCall.FlagsSmall : PagingCall → Prop
  | map _ _ flags => flags.toNat < 4096
  | mapRange _ _ _ flags => flags.toNat < 4096
  | mapTo _ _ _ flags => flags.toNat < 4096
  | set _ _ => True

/-- The entries that a successful call writes. -/
def PagingCall.writes : PagingCall → List (Addr × Word)
  | map virt phys flags => [(virt, phys ||| flags)]
  | mapRange virt phys count flags => pageRun (· ||| flags) count.toNat virt phys
  | mapTo virt phys physEnd flags =>
      pageRun (· ||| flags) ((physEnd - phys).toNat / pagingPageSize) virt phys
  | set virt val => [(virt, val)]

/-- The frames that a successful call gives to its pages. -/
def PagingCall.frames : PagingCall → List (Addr × Addr)
  | map virt phys _ => [(virt, phys)]
  | mapRange virt phys count _ => pageRun id count.toNat virt phys
  | mapTo virt phys physEnd _ => pageRun id ((physEnd - phys).toNat / pagingPageSize) virt phys
  | set virt val => [(virt, frameOf val)]

/-- One call on the chunk, with the log of the frames given out so far. -/
inductive PagingStep (chunk : Addr) :
    Bytes × List (Addr × Addr) → Bytes × List (Addr × Addr) → Prop where
  | call {bytes : Bytes} {log : List (Addr × Addr)} (call : PagingCall) (small : call.FlagsSmall) :
      PagingStep chunk (bytes, log) ((call.run chunk bytes).2,
        if (call.run chunk bytes).1 < 0 then log else log ++ call.frames)

theorem pageRun_frames {flags : Word} (small : flags.toNat < 4096) (count : Nat) {virt phys : Addr}
    (aligned : PageAligned phys) :
    (pageRun (· ||| flags) count virt phys).map (Prod.map id frameOf) =
      pageRun id count virt phys := by
  induction count generalizing virt phys with
  | zero => rfl
  | succ count ih =>
    rw [pageRun, List.map_cons, ih aligned.next, pageRun, Prod.map, frameOf_or flags aligned small]
    rfl

section Calls
variable {bytes : Bytes} {chunk directory : Addr} {tables : Nat → Addr} {view : Addr → Word}

theorem pagingMapTo_cases (bytes : Bytes) (chunk virt phys physEnd : Addr) (flags : Word) :
    pagingMapTo bytes chunk virt phys physEnd flags = (-EINVARG, bytes) ∨
      (PageAligned virt ∧ PageAligned phys ∧ phys.toNat ≤ physEnd.toNat ∧
        pagingMapTo bytes chunk virt phys physEnd flags = pagingMapRange bytes chunk virt phys
          (((physEnd - phys).toNat / pagingPageSize : Nat) : Int) flags) := by
  unfold pagingMapTo PageAligned
  split_ifs with virtBad physBad endBad order
  · exact Or.inl rfl
  · exact Or.inl rfl
  · exact Or.inl rfl
  · exact Or.inl rfl
  · exact Or.inr ⟨not_not.mp virtBad, not_not.mp physBad, not_lt.mp order, rfl⟩

theorem pagingMapRange_accepted {bytes : Bytes} {chunk virt phys : Addr} {count : Int} {flags : Word}
    (accepted : 0 ≤ (pagingMapRange bytes chunk virt phys count flags).1) :
    PageAligned phys ∨ count.toNat = 0 := by
  by_cases aligned : PageAligned virt ∧ PageAligned phys
  · exact Or.inl aligned.2
  · exact Or.inr ((pagingMapRange_unaligned _ _ _ _ aligned).2 accepted)

theorem PagingCall.writes_frames {call : PagingCall} (small : call.FlagsSmall)
    (accepted : 0 ≤ (call.run chunk bytes).1) :
    call.writes.map (Prod.map id frameOf) = call.frames := by
  cases call with
  | map virt phys flags =>
    simp only [PagingCall.run] at accepted
    by_cases aligned : PageAligned virt ∧ PageAligned phys
    · simp only [writes, frames, List.map_cons, List.map_nil, Prod.map, id_eq,
        frameOf_or flags aligned.2 small]
    · rw [pagingMap_unaligned aligned] at accepted
      exact absurd accepted einvarg_negative
  | mapRange virt phys count flags =>
    rcases pagingMapRange_accepted accepted with aligned | empty
    · exact pageRun_frames small _ aligned
    · simp only [writes, frames, empty, pageRun, List.map_nil]
  | mapTo virt phys physEnd flags =>
    rcases pagingMapTo_cases bytes chunk virt phys physEnd flags with rejected | ⟨_, aligned, _, _⟩
    · rw [PagingCall.run, rejected] at accepted
      exact absurd accepted einvarg_negative
    · exact pageRun_frames small _ aligned
  | set virt val => rfl

/-- A rejected call changes no byte, an accepted one does its writes in order. -/
theorem FlatMap.call (flat : FlatMap bytes chunk directory tables view) (call : PagingCall) :
    ((call.run chunk bytes).1 < 0 → (call.run chunk bytes).2 = bytes) ∧
    (0 ≤ (call.run chunk bytes).1 →
      FlatMap (call.run chunk bytes).2 chunk directory tables (replay view call.writes)) := by
  have chunkWord := flat.paged.chunkWord
  cases call with
  | map virt phys flags =>
    simp only [PagingCall.run, PagingCall.writes, replay_cons, replay_nil]
    by_cases aligned : PageAligned virt ∧ PageAligned phys
    · rw [pagingMap_eq aligned.1 aligned.2, chunkWord]
      have set := flat.set aligned.1 (phys ||| flags)
      exact ⟨fun negative => by omega, fun _ => set.2⟩
    · rw [pagingMap_unaligned aligned]
      exact ⟨fun _ => rfl, fun accepted => absurd accepted einvarg_negative⟩
  | mapRange virt phys count flags =>
    simp only [PagingCall.run, PagingCall.writes]
    by_cases aligned : PageAligned virt ∧ PageAligned phys
    · have mapped := flat.mapRangeLoop flags count.toNat 0 le_rfl aligned.1 aligned.2
      unfold pagingMapRange
      exact ⟨fun negative => by omega, fun _ => mapped.2⟩
    · have stopped := pagingMapRange_unaligned bytes chunk count flags aligned
      refine ⟨fun _ => stopped.1, fun accepted => ?_⟩
      rw [stopped.1, stopped.2 accepted]
      exact flat
  | mapTo virt phys physEnd flags =>
    simp only [PagingCall.run, PagingCall.writes]
    rcases pagingMapTo_cases bytes chunk virt phys physEnd flags with
      rejected | ⟨virtAligned, physAligned, _, same⟩
    · rw [rejected]
      exact ⟨fun _ => rfl, fun accepted => absurd accepted einvarg_negative⟩
    · have mapped := flat.mapRangeLoop flags ((physEnd - phys).toNat / pagingPageSize) 0
        le_rfl virtAligned physAligned
      rw [same]
      unfold pagingMapRange
      rw [Int.toNat_natCast]
      exact ⟨fun negative => by omega, fun _ => mapped.2⟩
  | set virt val =>
    simp only [PagingCall.run, PagingCall.writes, replay_cons, replay_nil]
    rw [chunkWord]
    by_cases aligned : PageAligned virt
    · have set := flat.set aligned val
      exact ⟨fun negative => by omega, fun _ => set.2⟩
    · rw [pagingSet_unaligned aligned]
      exact ⟨fun _ => rfl, fun accepted => absurd accepted einvarg_negative⟩

theorem FlatMap.mapTo_accepted (flat : FlatMap bytes chunk directory tables view) {virt phys physEnd : Addr}
    (flags : Word) (virtAligned : PageAligned virt) (physAligned : PageAligned phys)
    (endAligned : PageAligned physEnd) :
    (pagingMapTo bytes chunk virt phys physEnd flags).1 < 0 ↔ physEnd.toNat < phys.toNat := by
  have whole : ∀ {address : Addr}, PageAligned address → ¬address.toNat % pagingPageSize ≠ 0 :=
    fun aligned => not_not.mpr aligned
  unfold pagingMapTo
  rw [if_neg (whole virtAligned), if_neg (whole physAligned), if_neg (whole endAligned)]
  split
  next order => exact ⟨fun _ => order, fun _ => not_le.mp einvarg_negative⟩
  next order =>
    have mapped := flat.mapRangeLoop flags ((physEnd - phys).toNat / pagingPageSize) 0 le_rfl
      virtAligned physAligned
    refine ⟨fun negative => ?_, fun bad => absurd bad order⟩
    unfold pagingMapRange at negative
    dsimp only at negative
    rw [Int.toNat_natCast] at negative
    omega

theorem FlatMap.call_outside (flat : FlatMap bytes chunk directory tables view) (call : PagingCall) {address : Addr}
    (outside : ∀ i < 1024, frameOf address ≠ tables i) : (call.run chunk bytes).2 address = bytes address := by
  by_cases rejected : (call.run chunk bytes).1 < 0
  · rw [(flat.call call).1 rejected]
  have chunkWord := flat.paged.chunkWord
  have accepted := not_lt.mp rejected
  cases call with
  | map virt phys flags =>
    simp only [PagingCall.run] at accepted ⊢
    by_cases aligned : PageAligned virt ∧ PageAligned phys
    · rw [pagingMap_eq aligned.1 aligned.2, chunkWord]
      exact flat.paged.set_outside aligned.1 _ outside
    · rw [pagingMap_unaligned aligned]
  | mapRange virt phys count flags =>
    simp only [PagingCall.run] at accepted ⊢
    by_cases aligned : PageAligned virt ∧ PageAligned phys
    · exact flat.mapRangeLoop_outside flags _ 0 aligned.1 aligned.2 outside
    · rw [(pagingMapRange_unaligned bytes chunk count flags aligned).1]
  | mapTo virt phys physEnd flags =>
    simp only [PagingCall.run] at accepted ⊢
    rcases pagingMapTo_cases bytes chunk virt phys physEnd flags with
      rejected | ⟨virtAligned, physAligned, _, same⟩
    · rw [rejected]
    · rw [same]
      exact flat.mapRangeLoop_outside flags _ 0 virtAligned physAligned outside
  | set virt val =>
    simp only [PagingCall.run] at accepted ⊢
    rw [chunkWord]
    by_cases aligned : PageAligned virt
    · exact flat.paged.set_outside aligned val outside
    · rw [pagingSet_unaligned aligned]

end Calls

theorem pageOfIndexes {page : Addr} (aligned : PageAligned page) :
    BitVec.ofNat 32 (directoryIndex page * 4194304 + tableIndex page * 4096) = page := by
  apply BitVec.eq_of_toNat_eq
  have := page.isLt
  unfold PageAligned pagingPageSize at aligned
  unfold directoryIndex tableIndex pagingTotalEntriesPerTable pagingPageSize
  rw [BitVec.toNat_ofNat]
  omega

theorem NewPaging.flat {before after : Memory} {flags : Word} {chunk directory : Nat}
    {tables : Nat → Nat} (new : NewPaging before after flags chunk directory tables) :
    FlatMap after.bytes (heapBlockToAddress before.heap chunk)
      (heapBlockToAddress before.heap directory)
      (fun i => heapBlockToAddress before.heap (tables i)) (· ||| flags) where
  paged := new.paged
  entry := by
    intro page aligned
    rw [new.paged.pagingGet aligned, new.entries _ (directoryIndex_lt page) _ (tableIndex_lt page),
      pageOfIndexes aligned]

/-- The entries of the chunk, with the frames that the log of its calls gives. -/
def FlatLog (chunk directory : Addr) (tables : Nat → Addr)
    (state : Bytes × List (Addr × Addr)) : Prop :=
  ∃ view, FlatMap state.1 chunk directory tables view ∧
    ∀ page, PageAligned page → frameOf (view page) = replay id state.2 page

theorem FlatLog.step {chunk directory : Addr} {tables : Nat → Addr}
    {before after : Bytes × List (Addr × Addr)} (held : FlatLog chunk directory tables before)
    (step : PagingStep chunk before after) : FlatLog chunk directory tables after := by
  obtain ⟨view, flat, frames⟩ := held
  obtain @⟨bytes, log, call, small⟩ := step
  by_cases rejected : (call.run chunk bytes).1 < 0
  · rw [if_pos rejected, (flat.call call).1 rejected]
    exact ⟨view, flat, frames⟩
  · rw [if_neg rejected]
    have accepted := not_lt.mp rejected
    refine ⟨_, (flat.call call).2 accepted, fun page aligned => ?_⟩
    rw [replay_map frameOf, PagingCall.writes_frames small accepted, replay_append]
    simp only [replay, Function.comp_apply, frames page aligned]

/-- Any run of mapping calls on a new chunk behaves as one flat map: a rejected call
changes nothing, `paging_map_to` changes exactly its pages, and an address translates
by the last frame its page was given. -/
theorem paging_runs_flat {before created : Memory} {newFlags : BitVec 8} {chunk : Addr}
    {bytes : Bytes} {log : List (Addr × Addr)} (pool : Pool before.heap)
    (built : pagingNew4gb newFlags before = some (chunk, created))
    (run : Run (PagingStep chunk) (created.bytes, []) (bytes, log)) :
    directoryEntry bytes chunk = directoryEntry created.bytes chunk ∧
    (∀ call : PagingCall, (call.run chunk bytes).1 < 0 → (call.run chunk bytes).2 = bytes) ∧
    (∀ virt phys physEnd flags, 0 ≤ (pagingMapTo bytes chunk virt phys physEnd flags).1 →
      (∀ i < (physEnd.toNat - phys.toNat) / pagingPageSize,
        pagingGet (pagingMapTo bytes chunk virt phys physEnd flags).2 (directoryEntry bytes chunk)
          (virt + BitVec.ofNat 32 (i * pagingPageSize)) =
            (phys + BitVec.ofNat 32 (i * pagingPageSize)) ||| flags) ∧
      ∀ page, PageAligned page → (∀ i < (physEnd.toNat - phys.toNat) / pagingPageSize,
          page ≠ virt + BitVec.ofNat 32 (i * pagingPageSize)) →
        pagingGet (pagingMapTo bytes chunk virt phys physEnd flags).2
            (directoryEntry bytes chunk) page =
          pagingGet bytes (directoryEntry bytes chunk) page) ∧
    ∀ v : Addr, pagingGetPhysicalAddress bytes (directoryEntry bytes chunk) v =
      (lastWrite log (frameOf v)).getD (frameOf v) + BitVec.ofNat 32 (v.toNat % pagingPageSize) := by
  obtain ⟨chunkBlock, directory, tables, rfl, new⟩ := pagingNew4gb_new pool built
  have start : FlatLog _ _ _ (created.bytes, []) := ⟨_, new.flat, fun page aligned =>
    frameOf_or _ aligned (by have := setWidth_flags_small newFlags; omega)⟩
  obtain ⟨view, flat, frames⟩ := run.invariant _ (fun _ _ held step => held.step step) start
  have chunkWord := flat.paged.chunkWord
  refine ⟨chunkWord.trans new.paged.chunkWord.symm, fun call => (flat.call call).1, ?_, ?_⟩
  · intro virt phys physEnd flags accepted
    have mapped := (flat.call (.mapTo virt phys physEnd flags)).2 accepted
    obtain ⟨virtAligned, _, order, _⟩ := (pagingMapTo_cases bytes _ virt phys physEnd flags).resolve_left
      (fun rejected => by rw [rejected] at accepted; exact einvarg_negative accepted)
    have pages : (physEnd - phys).toNat = physEnd.toNat - phys.toNat := by
      have := physEnd.isLt
      rw [BitVec.toNat_sub]
      omega
    have short : (physEnd.toNat - phys.toNat) / pagingPageSize ≤ 2 ^ 20 := by
      have := physEnd.isLt
      unfold pagingPageSize
      omega
    simp only [PagingCall.run, PagingCall.writes, pages] at mapped
    rw [chunkWord]
    constructor
    · intro i bound
      have aligned : PageAligned (virt + BitVec.ofNat 32 (i * pagingPageSize)) := by
        unfold PageAligned pagingPageSize at *
        rw [BitVec.toNat_add, BitVec.toNat_ofNat]
        omega
      rw [mapped.entry _ aligned, replay, lastWrite_pageRun bound short]
      rfl
    · intro page aligned missed
      rw [mapped.entry page aligned, replay, lastWrite_pageRun_missed missed]
      exact (flat.entry page aligned).symm
  · intro v
    rw [pagingGetPhysicalAddress_eq, chunkWord, flat.entry _ (frameOf_aligned v), frames _ (frameOf_aligned v)]
    rfl

/-- Two pages of a new chunk are mapped, and the address in the second one translates. -/
theorem paging_runs_flat_boot : ∃ chunk created,
    pagingNew4gb 0x05 bootMemory = some (chunk, created) ∧
      let mapped := (pagingMapTo created.bytes chunk 0x00400000 0x01400000 0x01402000 0x07).2
      pagingGetPhysicalAddress mapped (directoryEntry mapped chunk) 0x00401123 = 0x01401123 := by
  have boot := bootMemory_kernel
  obtain ⟨chunk, created, built, _⟩ := pagingNew4gb_succeeds 0x05 boot.1 (by omega)
  obtain ⟨chunkBlock, directory, tables, rfl, new⟩ := pagingNew4gb_new boot.1.pool built
  have accepted : ¬(pagingMapTo created.bytes (heapBlockToAddress bootMemory.heap chunkBlock) 0x00400000 0x01400000
      0x01402000 0x07).1 < 0 := by
    rw [new.flat.mapTo_accepted 0x07 (by decide) (by decide) (by decide)]
    decide
  have step : PagingStep (heapBlockToAddress bootMemory.heap chunkBlock) (created.bytes, []) _ :=
    .call (.mapTo 0x00400000 0x01400000 0x01402000 0x07) (by unfold PagingCall.FlagsSmall; decide)
  rw [PagingCall.run, if_neg accepted] at step
  have flat := paging_runs_flat boot.1.pool built (.single step)
  exact ⟨_, created, built, (flat.2.2.2 0x00401123).trans (by decide)⟩

end PeachOS
