import PeachOS.FileCalls
import PeachOS.PathParts

/-! What a path that was parsed says about the path that was given. The parser stops at the
first empty component, wherever it is. -/

namespace PeachOS
open Program ByteMemory

/-- The parser takes `parts` from the front of the path, up to an empty component. -/
inductive Splits : List Byte → List (List Byte) → Prop where
  | stop {path : List Byte} (ends : Ends path) : Splits path []
  | part {part rest : List Byte} {parts : List (List Byte)} (proper : Proper part) (ends : Ends rest)
      (later : Splits rest.tail parts) : Splits (part ++ rest) (part :: parts)

/-- A root as a path: the digit of the drive, and the parts. -/
def printRoot (root : PathRoot) (parts : List (List Byte)) : List Byte :=
  printPath (BitVec.ofInt 8 (root.driveNo + 0x30)) parts

def Doubled (path : List Byte) : Prop := [slash, slash] <:+: path

section Doubled
variable {part path : List Byte}

theorem doubled_cons {c : Byte} :
    Doubled (c :: path) ↔ (c = slash ∧ path.head? = some slash) ∨ Doubled path := by
  unfold Doubled
  rw [List.infix_cons_iff, List.cons_prefix_cons]
  refine or_congr (and_congr eq_comm ?_) Iff.rfl
  cases path with
  | nil => simp
  | cons d path => simp [List.cons_prefix_cons, eq_comm]

theorem doubled_other {c : Byte} (other : c ≠ slash) : Doubled (c :: path) ↔ Doubled path := by
  rw [doubled_cons, or_iff_right (fun both => other both.1)]

theorem doubled_plain (plain : Plain part) : Doubled (part ++ path) ↔ Doubled path := by
  induction part with
  | nil => rfl
  | cons c part ih =>
    rw [List.cons_append, doubled_other (plain c (List.mem_cons_self ..)).1]
    exact ih (fun d member => plain d (List.mem_cons_of_mem _ member))

theorem doubled_part (proper : Proper part) : Doubled (slash :: (part ++ path)) ↔ Doubled path := by
  obtain ⟨c, rest, rfl⟩ := List.exists_cons_of_ne_nil proper.1
  have other : c ≠ slash := (proper.2 c (List.mem_cons_self ..)).1
  rw [doubled_cons, or_iff_right, doubled_plain proper.2]
  intro both
  exact other (Option.some.inj both.2)

theorem not_doubled_nil : ¬Doubled [] := by
  unfold Doubled
  simp

end Doubled

theorem Splits.ends {path : List Byte} (splits : Splits path []) : Ends path := by
  cases splits with
  | stop ends => exact ends

theorem Splits.path_nonempty {path : List Byte} {parts : List (List Byte)} (splits : Splits path parts)
    (nonempty : parts ≠ []) : path ≠ [] := by
  cases splits with
  | stop _ => exact absurd rfl nonempty
  | part proper _ _ =>
    intro empty
    exact proper.1 (List.append_eq_nil_iff.mp empty).1

/-- The parts give the path back, up to one slash at its end, if and only if no two slashes
follow each other. -/
theorem Splits.whole {path : List Byte} {parts : List (List Byte)} (splits : Splits path parts)
    (nonempty : parts ≠ []) :
    (parts.flatMap (fun part => slash :: part) = slash :: path ∨
      parts.flatMap (fun part => slash :: part) ++ [slash] = slash :: path) ↔
        ¬Doubled (slash :: path) := by
  induction splits with
  | stop _ => exact absurd rfl nonempty
  | @part part rest parts proper ends later ih =>
    rw [doubled_part proper, List.flatMap_cons, List.append_assoc, List.cons_append, List.cons_append,
      List.cons_inj_right, List.cons_inj_right, List.append_right_inj, List.append_right_inj]
    by_cases last : parts = []
    · subst last
      rw [List.flatMap_nil, List.nil_append]
      cases ends with
      | inl empty =>
        subst empty
        exact ⟨fun _ => not_doubled_nil, fun _ => Or.inl rfl⟩
      | inr more =>
        obtain ⟨left, rfl⟩ := more
        cases later.ends with
        | inl empty =>
          obtain rfl : left = [] := empty
          refine ⟨fun _ => ?_, fun _ => Or.inr rfl⟩
          rw [doubled_cons, not_or]
          exact ⟨fun both => absurd both.2 (by decide), not_doubled_nil⟩
        | inr more =>
          obtain ⟨tail, doubled⟩ := more
          obtain rfl : left = slash :: tail := doubled
          have twice : Doubled (slash :: slash :: tail) := doubled_cons.mpr (Or.inl ⟨rfl, rfl⟩)
          refine ⟨fun whole => ?_, fun none => absurd twice none⟩
          cases whole with
          | inl nothing => cases nothing
          | inr one => cases one
    · -- the rest begins with a slash, and the parts after it are those of its tail
      cases ends with
      | inl empty =>
        subst empty
        exact absurd rfl (later.path_nonempty last)
      | inr more =>
        obtain ⟨left, rfl⟩ := more
        exact ih last

theorem Splits.proper {path : List Byte} {parts : List (List Byte)} (splits : Splits path parts) :
    ∀ part ∈ parts, Proper part := by
  induction splits with
  | stop _ => exact fun part impossible => absurd impossible List.not_mem_nil
  | part proper _ _ ih =>
    intro other member
    cases List.mem_cons.mp member with
    | inl same => exact same ▸ proper
    | inr later => exact ih other later

theorem path_split {path : List Byte} (terminated : (0 : Byte) ∉ path) :
    Ends path ∨ ∃ part rest, path = part ++ rest ∧ Proper part ∧ Ends rest := by
  induction path with
  | nil => exact Or.inl (Or.inl rfl)
  | cons c path ih =>
    rw [List.mem_cons, not_or] at terminated
    by_cases here : c = slash
    · exact Or.inl (Or.inr ⟨path, by rw [here]⟩)
    · right
      have alone : Plain [c] := by
        intro d member
        rw [List.mem_singleton.mp member]
        exact ⟨here, fun zero => terminated.1 zero.symm⟩
      cases ih terminated.2 with
      | inl ends => exact ⟨[c], path, rfl, ⟨List.cons_ne_nil _ _, alone⟩, ends⟩
      | inr more =>
        obtain ⟨part, rest, rfl, proper, ends⟩ := more
        refine ⟨c :: part, rest, rfl, ⟨List.cons_ne_nil _ _, ?_⟩, ends⟩
        intro d member
        cases List.mem_cons.mp member with
        | inl same => exact same ▸ alone c (List.mem_singleton.mpr rfl)
        | inr later => exact proper.2 d later

section Rounds
variable {before after : Kernel} {tables : Set (Nat → Addr)} {path left part rest : List Byte} {node str last : Addr}

/-- No record is guarded: the heap alone is sound. -/
abbrev PathState (tables : Set (Nat → Addr)) (kernel : Kernel) : Prop :=
  Guards ∅ (fun _ _ => False) tables kernel

theorem Kernel.newRecord_room {ptr : Addr} {size : Word} {record : FileRecord}
    (kernel : KernelHeap before.memory.heap)
    (run : Kernel.newRecord size record before = (.ok ptr, after)) (nonnull : ptr ≠ 0) :
    0 < (freeBlocks before.memory.heap).card := by
  rcases Kernel.newRecord_ok kernel run with ⟨null, _⟩ | ⟨start, _, _, _, marks, _⟩
  · exact absurd null nonnull
  · exact Finset.card_pos.mpr ⟨start, mem_freeBlocks.mpr ⟨marks.bound, marks.startFree⟩⟩

theorem PathState.kfree_null (state : PathState tables before) :
    Extends ∅ before (before.setMemory (PeachOS.kfree 0 before.memory)) := by
  have frees := state.sound.heapFree_null
  refine ⟨(frees.sound_below state.sound).kernel, ?_, fun _ _ _ => rfl, fun _ _ _ _ _ => rfl, rfl, rfl⟩
  intro ptr live
  obtain ⟨block, bound, address, taken⟩ := live
  refine ⟨block, ?_, ?_, ?_⟩
  · show block < (heapFree before.memory.heap 0).table.total
    rw [frees.total]
    exact bound
  · rw [address]
    exact (heapBlockToAddress_congr frees.saddr block).symm
  · have kept : (heapFree before.memory.heap 0).table.entries block = _ :=
      frees.below state.sound (by omega)
    show ¬EntryFree (heapFree before.memory.heap 0).table.entries block
    unfold EntryFree
    rw [kept]
    exact taken

theorem PathState.parse_stop (state : PathState tables before) (ends : Ends path)
    (run : pathparserParsePathPart last path before = (.ok (node, left), after)) :
    node = 0 ∧ Extends ∅ before after := by
  by_cases room : 0 < (freeBlocks before.memory.heap).card
  · obtain ⟨other, parsed, extended, _⟩ := pathparserParsePathPart_end last state.sound.kernel room ends
    rw [parsed] at run
    cases run
    exact ⟨rfl, extended⟩
  · obtain ⟨⟨str, rest⟩, middle, got, finish⟩ := bind_eq_ok run
    obtain ⟨buffer, first, allocated, copying⟩ := bind_eq_ok got
    have null : buffer = 0 := by
      by_contra nonnull
      exact room (Kernel.newRecord_room state.sound.kernel allocated nonnull)
    obtain ⟨_, rfl⟩ : buffer = 0 ∧ first = before := by
      rcases Kernel.newRecord_ok state.sound.kernel allocated with same | ⟨_, _, nonnull, _⟩
      · exact same
      · exact absurd null nonnull
    have copied : pathparserCopyLoop buffer 0 path first = (.ok (0, path), first) := by
      cases ends with
      | inl empty =>
        subst empty
        rfl
      | inr more =>
        obtain ⟨tail, rfl⟩ := more
        exact congrFun (if_pos (Or.inl rfl)) _
    rw [bind_ok copied, null] at copying
    cases copying
    cases finish
    exact ⟨rfl, state.kfree_null⟩

theorem PathState.copy_nonnull (state : PathState tables before) (proper : Proper part) {i : Nat}
    {result : Nat × List Byte}
    (run : pathparserCopyLoop str i (part ++ rest) before = (.ok result, after)) : str ≠ 0 := by
  obtain ⟨c, tail, rfl⟩ := List.exists_cons_of_ne_nil proper.1
  have plain : c ≠ slash ∧ c ≠ 0 := proper.2 c (List.mem_cons_self ..)
  rw [List.cons_append, pathparserCopyLoop, if_neg (by tauto)] at run
  obtain ⟨_, middle, set, _⟩ := bind_eq_ok run
  obtain ⟨_, looked, found, _⟩ := bind_eq_ok set
  obtain ⟨_, record, here, _⟩ := Kernel.record_ok found
  rintro rfl
  rw [state.null] at here
  cases here

theorem PathState.parse_room (state : PathState tables before) (proper : Proper part) (ends : Ends rest)
    (short : part.length < peachosMaxPath)
    (run : pathparserParsePathPart last (part ++ rest) before = (.ok (node, left), after)) :
    2 ≤ (freeBlocks before.memory.heap).card := by
  obtain ⟨⟨found, tail⟩, middle, got, finish⟩ := bind_eq_ok run
  have middleState : PathState tables middle := Guards.getPathPart unguarded _ _ _ _ state got
  have room : 0 < (freeBlocks before.memory.heap).card := by
    obtain ⟨buffer, first, allocated, copying⟩ := bind_eq_ok got
    have firstState : PathState tables first := Guards.newRecord _ _ _ _ _ state allocated
    obtain ⟨_, _, copied, _⟩ := bind_eq_ok copying
    exact Kernel.newRecord_room state.sound.kernel allocated (firstState.copy_nonnull proper copied)
  obtain ⟨str, other, parsed, _, buffer, extended, count⟩ :=
    pathparserGetPathPart_part state.sound.kernel room proper.2 ends proper.1 short
  rw [got] at parsed
  cases parsed
  dsimp only at finish
  rw [if_neg (buffer.live.nonnull extended.kernel)] at finish
  obtain ⟨part, second, allocated, writing⟩ := bind_eq_ok finish
  obtain ⟨_, third, written, _⟩ := bind_eq_ok writing
  have secondState : PathState tables second := Guards.newRecord _ _ _ _ _ middleState allocated
  have nonnull : part ≠ 0 := by
    rintro rfl
    obtain ⟨_, old, _, here, _⟩ := Kernel.writeRecord_ok written
    rw [secondState.null] at here
    cases here
  have more := Kernel.newRecord_room middleState.sound.kernel allocated nonnull
  omega

theorem PathState.create_root {driveNumber : Int} {root : Addr} (state : PathState tables before)
    (run : pathparserCreateRoot driveNumber before = (.ok root, after)) :
    PathState tables after ∧ 0 < (freeBlocks before.memory.heap).card := by
  obtain ⟨ptr, middle, allocated, writing⟩ := bind_eq_ok run
  obtain ⟨_, last, written, returned⟩ := bind_eq_ok writing
  cases returned
  have middleState : PathState tables middle := Guards.newRecord _ _ _ _ _ state allocated
  refine ⟨middleState.wrote (fun _ _ _ _ member => member.elim) written,
    Kernel.newRecord_room state.sound.kernel allocated ?_⟩
  rintro rfl
  obtain ⟨_, old, _, here, _⟩ := Kernel.writeRecord_ok written
  rw [middleState.null] at here
  cases here

/-- The loop from a last record on appends what the parser takes from the path. -/
theorem PathState.parse_loop (state : PathState tables before) (fuel : Nat)
    (terminated : (0 : Byte) ∉ path) (short : path.length < peachosMaxPath)
    (live : Live before.memory.heap node) (file : before.files node = some (.pathPart ⟨str, 0⟩))
    (run : pathparserParseLoop fuel node path before = (.ok (), after)) :
    ∃ parts next, Splits path parts ∧ after.files node = some (.pathPart ⟨str, next⟩) ∧
      PathParts after next parts ∧ Extends {node} before after := by
  induction fuel generalizing node str path before with
  | zero => cases run
  | succ fuel ih =>
    have kernel := state.sound.kernel
    rw [pathparserParseLoop, if_neg (live.nonnull kernel)] at run
    obtain ⟨⟨newNode, left⟩, middle, parsed, rounds⟩ := bind_eq_ok run
    dsimp only at rounds
    rcases path_split terminated with ends | ⟨part, rest, rfl, proper, ends⟩
    · obtain ⟨rfl, extended⟩ := state.parse_stop ends parsed
      have last : after = middle := by
        cases fuel with
        | zero => cases rounds
        | succ fuel =>
          rw [pathparserParseLoop, if_pos rfl] at rounds
          cases rounds
          rfl
      subst last
      exact ⟨[], 0, .stop ends, (extended.files node live (by simp)).trans file, rfl,
        extended.widen (by simp)⟩
    · rw [List.length_append] at short
      have room := state.parse_room proper ends (by omega) parsed
      have middleState : PathState tables middle :=
        Guards.parsePathPart unguarded _ _ _ _ _ state parsed
      obtain ⟨_, newStr, _, made, new, extended, linked⟩ := pathparserParsePathPart_part kernel room
        proper.2 ends proper.1 (by omega) node (Or.inr ⟨live, _, file⟩)
      rw [parsed] at made
      cases made
      have relinked := linked _ (live.nonnull kernel) file
      have tailShort : rest.tail.length ≤ rest.length := by
        rw [List.length_tail]
        exact Nat.sub_le _ _
      have tailTerminated : (0 : Byte) ∉ rest.tail := fun member =>
        terminated (List.mem_append_right part (List.mem_of_mem_tail member))
      obtain ⟨parts, next, splits, newFile, tail, later⟩ :=
        ih middleState tailTerminated (by omega) new.live new.file rounds
      have apart : node ≠ newNode := by
        rintro rfl
        exact new.fresh live
      refine ⟨part :: parts, newNode, .part proper ends splits,
        (later.files node (extended.live node live) (by simpa using apart)).trans relinked,
        ⟨_, later.live _ new.live, newFile,
          new.buffer.extends extended.kernel later (by simpa using new.apart), tail⟩,
        extended.trans later ?_⟩
      intro ptr member alive
      rw [Set.mem_singleton_iff] at member
      exact absurd (member ▸ alive) new.fresh

end Rounds

theorem pathparserPathValidFormat_form {path : List Byte} (valid : pathparserPathValidFormat path = true) :
    ∃ drive rest, path = drive :: 0x3A :: slash :: rest ∧ isdigit drive = true := by
  unfold pathparserPathValidFormat at valid
  simp only [Bool.and_eq_true, decide_eq_true_eq, beq_iff_eq] at valid
  obtain ⟨⟨long, digit⟩, colon, first⟩ := valid
  match path, long, digit, colon, first with
  | drive :: second :: third :: rest, _, digit, colon, first =>
    have second' : second = 0x3A := colon
    have third' : third = slash := first
    exact ⟨drive, rest, by rw [second', third'], digit⟩
  | [], _, _, colon, _ => cases colon
  | [_], _, _, colon, _ => cases colon
  | [_, _], _, _, _, first => cases first

theorem digit_printed {drive : Byte} (digit : isdigit drive = true) :
    BitVec.ofInt 8 (tonumericdigit drive + 0x30) = drive ∧ ¬tonumericdigit drive < 0 := by
  unfold isdigit at digit
  rw [Bool.and_eq_true, decide_eq_true_eq, decide_eq_true_eq] at digit
  unfold tonumericdigit
  rw [Int.sub_add_cancel, BitVec.ofInt_natCast, BitVec.ofNat_toNat, BitVec.setWidth_eq]
  exact ⟨rfl, by omega⟩

theorem strlen_terminated {str : List Byte} (terminated : (0 : Byte) ∉ str) : strlen str = str.length := by
  induction str with
  | nil => rfl
  | cons c rest ih =>
    rw [List.mem_cons, not_or] at terminated
    rw [strlen, if_neg (fun zero => terminated.1 zero.symm), ih terminated.2, List.length_cons]

theorem PathState.parse {before after : Kernel} {tables : Set (Nat → Addr)} {path : List Byte}
    {root : Addr} {record : PathRoot} (state : PathState tables before) (terminated : (0 : Byte) ∉ path)
    (run : pathparserParse path before = (.ok root, after))
    (here : after.files root = some (.pathRoot record)) (first : record.first ≠ 0) :
    ∃ drive rest parts, path = drive :: 0x3A :: slash :: rest ∧ isdigit drive = true ∧
      record.driveNo = tonumericdigit drive ∧ parts ≠ [] ∧ Splits rest parts ∧
      PathParts after record.first parts := by
  have nowhere : root = 0 → after = before → False := by
    rintro rfl rfl
    rw [state.null] at here
    cases here
  unfold pathparserParse at run
  split at run
  · cases run
    exact (nowhere rfl rfl).elim
  next short =>
    by_cases valid : pathparserPathValidFormat path = true
    · obtain ⟨drive, rest, rfl, digit⟩ := pathparserPathValidFormat_form valid
      have driveNo : pathparserGetDriveByPath (drive :: 0x3A :: slash :: rest) =
          (tonumericdigit drive, rest) := by
        unfold pathparserGetDriveByPath
        rw [valid]
        rfl
      rw [driveNo] at run
      dsimp only at run
      rw [if_neg (digit_printed digit).2] at run
      rw [strlen_terminated terminated] at short
      simp only [List.length_cons] at short
      have restTerminated : (0 : Byte) ∉ rest := by
        simp only [List.mem_cons, not_or] at terminated
        exact terminated.2.2.2
      obtain ⟨created, opened, creation, run⟩ := bind_eq_ok run
      obtain ⟨openedState, room⟩ := state.create_root creation
      obtain ⟨_, _, made, rootExtends, _, rootLive, rootFile, _⟩ :=
        pathparserCreateRoot_run state.sound.kernel room (tonumericdigit drive)
      rw [creation] at made
      cases made
      have kernel := rootExtends.kernel
      have rootNonnull := rootLive.nonnull kernel
      rw [if_neg rootNonnull] at run
      obtain ⟨⟨node, left⟩, second, parsed, run⟩ := bind_eq_ok run
      dsimp only at run
      rcases path_split restTerminated with ends | ⟨part, tail, rfl, proper, ends⟩
      · obtain ⟨rfl, extended⟩ := openedState.parse_stop ends parsed
        rw [if_pos rfl] at run
        cases run
        rw [extended.files root rootLive (by simp), rootFile] at here
        cases here
        exact absurd rfl first
      · rw [List.length_append] at short
        have secondRoom := openedState.parse_room proper ends (by omega) parsed
        have secondState : PathState tables second :=
          Guards.parsePathPart unguarded _ _ _ _ _ openedState parsed
        obtain ⟨_, str, _, made, new, extended, _⟩ := pathparserParsePathPart_part kernel secondRoom
          proper.2 ends proper.1 (by omega) 0 (Or.inl rfl)
        rw [parsed] at made
        cases made
        rw [if_neg (new.live.nonnull extended.kernel)] at run
        obtain ⟨_, looked, lookup, run⟩ := bind_eq_ok run
        obtain ⟨rfl, _⟩ := Kernel.record_ok lookup
        have rootSecond := (extended.files created rootLive (by simpa using rootNonnull)).trans rootFile
        have found : Kernel.record FileRecord.asPathRoot created looked = _ :=
          Kernel.record_run rootSecond rfl
        rw [lookup] at found
        cases found
        obtain ⟨_, third, entry, run⟩ := bind_eq_ok run
        have thirdState : PathState tables third :=
          secondState.wrote (fun _ _ _ _ member => member.elim) entry
        obtain ⟨rfl, _⟩ := Kernel.writeRecord_ok entry
        obtain ⟨⟨next, left⟩, fourth, parsedNext, run⟩ := bind_eq_ok run
        obtain ⟨_, last, looped, returned⟩ := bind_eq_ok run
        cases returned
        -- the second part and the loop after it are the loop from the first part on
        have rounds : pathparserParseLoop (tail.tail.length + 2) node tail.tail
            (looked.setFiles (Function.update looked.files root
              (some (.pathRoot ⟨tonumericdigit drive, node⟩)))) = (.ok (), after) := by
          rw [pathparserParseLoop, if_neg (new.live.nonnull extended.kernel)]
          exact (bind_ok parsedNext).trans looped
        have apart : root ≠ node := by
          rintro rfl
          exact new.fresh rootLive
        have strApart : str ≠ root := by
          rintro rfl
          exact new.freshBuffer rootLive
        have entered := Extends.write extended.kernel root (.pathRoot ⟨tonumericdigit drive, node⟩)
        have nodeFile := (entered.files node new.live (by simpa using apart.symm)).trans new.file
        have rootThird := Function.update_self root
          (some (FileRecord.pathRoot ⟨tonumericdigit drive, node⟩)) looked.files
        have tailTerminated : (0 : Byte) ∉ tail.tail := fun member =>
          restTerminated (List.mem_append_right part (List.mem_of_mem_tail member))
        have tailShort : tail.tail.length ≤ tail.length := by
          rw [List.length_tail]
          exact Nat.sub_le _ _
        obtain ⟨parts, next, splits, nodeLast, parts', later⟩ := thirdState.parse_loop _ tailTerminated
          (by unfold peachosMaxPath at short ⊢; omega) new.live nodeFile rounds
        rw [later.files root (extended.live root rootLive) (by simpa using apart), Kernel.setFiles_files,
          rootThird] at here
        cases here
        refine ⟨drive, part ++ tail, part :: parts, rfl, digit, rfl, List.cons_ne_nil _ _,
          .part proper ends splits, ⟨_, later.live node new.live, nodeLast, ?_, parts'⟩⟩
        exact (new.buffer.extends extended.kernel entered (by simpa using strApart)).extends
          entered.kernel later (by simpa using new.apart)
    · have rejected : pathparserGetDriveByPath path = (- EBADPATH, path) := by
        unfold pathparserGetDriveByPath
        rw [if_pos (by simpa using valid)]
      rw [rejected] at run
      cases run
      exact (nowhere rfl rfl).elim

/-- A path that was parsed into at least one part is given back by its parts, up to one slash
at its end, if and only if it has no two slashes in a row. -/
theorem pathparserParse_whole {before after : Kernel} {tables : Set (Nat → Addr)} {path : List Byte}
    {root : Addr} {record : PathRoot} (state : PathState tables before) (terminated : (0 : Byte) ∉ path)
    (run : pathparserParse path before = (.ok root, after))
    (here : after.files root = some (.pathRoot record)) (first : record.first ≠ 0) :
    ∃ parts, (∀ part ∈ parts, Proper part) ∧ PathParts after record.first parts ∧
      ((printRoot record parts = path ∨ printRoot record parts ++ [slash] = path) ↔ ¬Doubled path) := by
  obtain ⟨drive, rest, parts, rfl, digit, number, nonempty, splits, held⟩ :=
    state.parse terminated run here first
  refine ⟨parts, splits.proper, held, ?_⟩
  have driveOther : drive ≠ slash := by
    rintro rfl
    exact absurd digit (by decide)
  have printed : printRoot record parts =
      drive :: 0x3A :: parts.flatMap (fun part => slash :: part) := by
    unfold printRoot printPath
    rw [number, (digit_printed digit).1]
  rw [printed, doubled_other driveOther, doubled_other (by decide), ← splits.whole nonempty,
    List.cons_append, List.cons_append, List.cons_inj_right, List.cons_inj_right, List.cons_inj_right,
    List.cons_inj_right]

theorem bootKernel_pathState : PathState {fun _ => 0} bootKernel where
  sound := bootMemory_sound
  recorded := fun _ _ impossible => by cases impossible
  held := fun _ member => member.elim
  kept := fun _ member => member.elim
  table := rfl

theorem pathparserParse_boot {trailing : List Byte} (stops : Stops trailing)
    (short : trailing.length < 100) : ∃ root after first,
      pathparserParse (0x30 :: 0x3A :: slash :: 0x61 :: trailing) bootKernel = (.ok root, after) ∧
        after.files root = some (.pathRoot ⟨0, first⟩) ∧ first ≠ 0 ∧
        PathParts after first [[0x61]] := by
  have kernel : KernelHeap bootKernel.memory.heap := bootMemory_kernel.1
  have room : 2 * ([] : List (List Byte)).length + 4 ≤ (freeBlocks bootKernel.memory.heap).card := by
    rw [show (freeBlocks bootKernel.memory.heap).card = 25600 from bootMemory_kernel.2]
    decide
  have fits := strlen_le (0x30 :: 0x3A :: slash :: 0x61 :: trailing)
  simp only [List.length_cons] at fits
  have valid : pathparserPathValidFormat (0x30 :: 0x3A :: slash :: 0x61 :: trailing) = true := by
    have three : strnlen (0x30 :: 0x3A :: slash :: 0x61 :: trailing) 3 = 3 :=
      strnlen_of_nonzero (by simp) (by simp)
    have long := strnlen_mono (0x30 :: 0x3A :: slash :: 0x61 :: trailing)
      (show 3 ≤ peachosMaxPath by decide)
    unfold pathparserPathValidFormat
    simp only [Bool.and_eq_true, decide_eq_true_eq, beq_iff_eq]
    exact ⟨⟨by omega, rfl⟩, rfl, rfl⟩
  have proper : ∀ each ∈ [([0x61] : List Byte)], Proper each := by
    unfold Proper Plain
    decide
  have printed : (printParts trailing [[0x61]]).length < peachosMaxPath := by
    show (0x61 :: trailing).length < 108
    rw [List.length_cons]
    omega
  obtain ⟨root, after, first, run, file, parts, _, extended, _⟩ :=
    pathparserParse_valid stops kernel room proper (by unfold peachosMaxPath; omega) valid rfl printed
  refine ⟨root, after, first, run, file, ?_, parts⟩
  obtain ⟨_, live, _⟩ := parts
  exact live.nonnull extended.kernel

/-- `0:/a//b` is parsed as `0:/a`. -/
theorem pathparserParse_drops : ∃ root after record parts,
    pathparserParse [0x30, 0x3A, slash, 0x61, slash, slash, 0x62] bootKernel = (.ok root, after) ∧
      after.files root = some (.pathRoot record) ∧ record.first ≠ 0 ∧
      PathParts after record.first parts ∧ printRoot record parts = [0x30, 0x3A, slash, 0x61] ∧
      ¬(printRoot record parts = [0x30, 0x3A, slash, 0x61, slash, slash, 0x62] ∨
        printRoot record parts ++ [slash] = [0x30, 0x3A, slash, 0x61, slash, slash, 0x62]) := by
  have stops : Stops [slash, slash, 0x62] := ⟨Or.inr ⟨_, rfl⟩, Or.inr ⟨_, rfl⟩⟩
  obtain ⟨root, after, first, run, file, nonnull, parts⟩ := pathparserParse_boot stops (by decide)
  have printed : printRoot ⟨0, first⟩ [[0x61]] = [0x30, 0x3A, slash, 0x61] := rfl
  refine ⟨root, after, ⟨0, first⟩, [[0x61]], run, file, nonnull, parts, printed, ?_⟩
  rw [printed]
  decide

/-- `0:/a/` is given back but for its last slash. -/
theorem pathparserParse_whole_boot : ∃ root after record,
    pathparserParse [0x30, 0x3A, slash, 0x61, slash] bootKernel = (.ok root, after) ∧
      ∃ parts, (∀ part ∈ parts, Proper part) ∧ PathParts after record.first parts ∧
        ((printRoot record parts = [0x30, 0x3A, slash, 0x61, slash] ∨
          printRoot record parts ++ [slash] = [0x30, 0x3A, slash, 0x61, slash]) ↔
            ¬Doubled [0x30, 0x3A, slash, 0x61, slash]) := by
  have stops : Stops [slash] := ⟨Or.inr ⟨_, rfl⟩, Or.inl rfl⟩
  obtain ⟨root, after, first, run, file, nonnull, _⟩ := pathparserParse_boot stops (by decide)
  exact ⟨root, after, ⟨0, first⟩, run,
    pathparserParse_whole bootKernel_pathState (by decide) run file nonnull⟩

end PeachOS
