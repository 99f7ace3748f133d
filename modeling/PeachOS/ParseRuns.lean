import PeachOS.ParseCommand

/-! Runs of `peachos_parse_command`. Between two calls the program does with its memory what it will; the pointer of
the tokenizer alone goes from one call to the next. -/

namespace PeachOS.Stdlib
open ByteMemory

/-- A call with the memory that it finds and its command. -/
structure ParseEntry where
  call : ParseCall
  bytes : Bytes
  text : List Byte
  meets : call.Meets bytes text

/-- The calls one after the other; each ends and keeps what is promised of it. -/
def EachCall {α : Type} (perform : ParseCall → Tokenizer → Option (α × Tokenizer))
    (promise : ParseEntry → α → Tokenizer → Prop) : (sp : Addr) → List ParseEntry → Prop
  | _, [] => True
  | sp, entry :: later => ∃ result after, perform entry.call ⟨entry.bytes, sp⟩ = some (result, after) ∧
      promise entry result after ∧ EachCall perform promise after.sp later

/-- The list of the command's words, null if there are none; the tokenizer is ready for the next call. -/
def ReturnsWords (entry : ParseEntry) (root : Addr) (after : Tokenizer) : Prop :=
  (∃ live, ArgumentList after.bytes live root (commandArguments entry.text)) ∧
    (root = 0 ↔ ∀ c ∈ entry.text.take (sizeofScommand - 1), c = space) ∧ after.sp = 0

/-- The result of a call by its own command and its own allocations. -/
def ReturnsOwn (entry : ParseEntry) (root : Addr) (after : Tokenizer) : Prop :=
  if sizeofScommand ≤ entry.call.max.toNat then root = 0 else entry.call.Returns entry.text root after

/-- A call that is let in comes to no allocation that fails. -/
def ParseEntry.Finishes (entry : ParseEntry) : Prop :=
  entry.call.max.toNat < sizeofScommand → entry.call.Complete entry.text

section Calls
variable {fuel : Nat} {entry : ParseEntry} {sp : Addr}

theorem served_all {malloc : Nat → Allocation} {k : Nat} {arguments : List (List Byte)}
    (complete : ∀ i < arguments.length, (malloc (k + i)).ptr ≠ 0) : served malloc k arguments = arguments := by
  induction arguments generalizing k with
  | nil => rfl
  | cons argument later ih =>
    have first : ¬(malloc k).ptr = 0 := complete 0 (Nat.succ_pos _)
    rw [served, if_neg first, ih (fun i bound => ?_)]
    rw [Nat.add_assoc, Nat.add_comm 1]
    exact complete (i + 1) (Nat.succ_le_succ bound)

theorem ParseCall.Complete.served {call : ParseCall} {text : List Byte} (complete : call.Complete text) :
    served call.malloc 0 (commandArguments text) = commandArguments text :=
  served_all (fun i bound => by
    rw [Nat.zero_add]
    exact complete i bound)

theorem commandArguments_eq_nil_iff (text : List Byte) :
    commandArguments text = [] ↔ ∀ c ∈ text.take (sizeofScommand - 1), c = space := by
  unfold commandArguments
  rw [List.map_eq_nil_iff, words_eq_nil_iff]

theorem ArgumentList.null_iff {bytes : Bytes} {live : Addr → Prop} {root : Addr} {arguments : List (List Byte)}
    (listed : ArgumentList bytes live root arguments) : root = 0 ↔ arguments = [] := by
  cases arguments with
  | nil => exact iff_of_true listed rfl
  | cons argument rest => exact iff_of_false listed.1 (List.cons_ne_nil _ _)

/-- A call that finds the tokenizer ready has its own result, and leaves the tokenizer ready if it finishes. -/
theorem ParseEntry.step (enough : sizeofScommand ≤ fuel) (entry : ParseEntry) :
    ∃ root after, peachosParseCommand fuel entry.call ⟨entry.bytes, 0⟩ = some (root, after) ∧
      ReturnsOwn entry root after ∧ (after.sp = 0 ↔ entry.Finishes) := by
  unfold ReturnsOwn ParseEntry.Finishes
  by_cases large : sizeofScommand ≤ entry.call.max.toNat
  · refine ⟨0, _, if_pos large, by rw [if_pos large], fun _ small => absurd large (Nat.not_le.mpr small), fun _ => rfl⟩
  · have small := Nat.lt_of_not_le large
    obtain ⟨root, after, parsed, returned, ready⟩ := entry.meets.parses small enough
    exact ⟨root, after, parsed, by rwa [if_neg large],
      fun idle _ => ready.mp idle, fun finishes => ready.mpr (finishes small)⟩

theorem EachCall.of_ready {α : Type} {perform : ParseCall → Tokenizer → Option (α × Tokenizer)}
    {promise : ParseEntry → α → Tokenizer → Prop} {Finishes : ParseEntry → Prop}
    (step : ∀ entry, ∃ result after, perform entry.call ⟨entry.bytes, 0⟩ = some (result, after) ∧
      promise entry result after ∧ (Finishes entry → after.sp = 0))
    {calls : List ParseEntry} (finishes : ∀ entry ∈ calls, Finishes entry) (next : ParseEntry) :
    EachCall perform promise 0 (calls ++ [next]) := by
  induction calls with
  | nil =>
    obtain ⟨result, after, performed, kept, _⟩ := step next
    exact ⟨result, after, performed, kept, trivial⟩
  | cons entry later ih =>
    obtain ⟨first, others⟩ := List.forall_mem_cons.mp finishes
    obtain ⟨result, after, performed, kept, ready⟩ := step entry
    refine ⟨result, after, performed, kept, ?_⟩
    rw [ready first]
    exact ih others

end Calls

section Letter

abbrev letter : Byte := 0x6c

/-- No built-in begins with it. -/
abbrev strangeLetter : Byte := 0x78

/-- A command that is one letter. Nothing else is in memory, and the array is a page before it. -/
def letterCall (scommand : Addr) (max : Word) (ptr : Addr) : ParseCall :=
  ⟨scommand + 0x1000, max, scommand, fun _ => ⟨ptr, id⟩⟩

def letterBytes (c : Byte) (scommand : Addr) : Bytes := Function.update (fun _ => 0) (scommand + 0x1000) c

theorem commandArguments_letter : commandArguments [letter] = [[letter]] := by
  decide

theorem commandArguments_strange : commandArguments [strangeLetter] = [[strangeLetter]] := by
  decide

theorem letterCall_meets {c : Byte} (single : commandArguments [c] = [[c]]) (visible : c ≠ 0) {scommand : Addr}
    (nonnull : scommand ≠ 0) (low : scommand.toNat ≤ 0x4000) (max : Word) {ptr : Addr}
    (block : ptr = 0 ∨ ptr = 0x8000) : (letterCall scommand max ptr).Meets (letterBytes c scommand) [c] where
  held := by
    have behind : scommand + 0x1000 + 1 ≠ scommand + 0x1000 := by bv_omega
    refine HoldsString.cons (Function.update_self _ _ _) visible ⟨fun _ none => absurd none List.not_mem_nil, ?_⟩
    show [letterBytes c scommand (scommand + 0x1000 + 1)] = _
    unfold letterBytes
    rw [Function.update_of_ne behind]
    rfl
  stack := ⟨nonnull, by
    show scommand.toNat + 1025 ≤ _
    omega⟩
  apart := by
    intro b bound
    have small : b ≤ 1 := bound
    show ¬(scommand + 0x1000 + BitVec.ofNat 32 b - scommand).toNat < 1025
    bv_omega
  serves := by
    rw [single]
    refine ⟨fun k bound served address inBlock => ?_, fun _ _ _ _ _ _ => rfl⟩
    obtain rfl : k = 0 := Nat.lt_one_iff.mp bound
    have served : ptr ≠ 0 := served 0 (Nat.le_refl 0)
    obtain ⟨j, small, place⟩ := inBlock
    have small : j < 516 := small
    have place : address = ptr + BitVec.ofNat 32 j := place
    refine ⟨?_, fun i less => absurd less (Nat.not_lt_zero i)⟩
    show ¬(address - scommand).toNat < 1025
    rcases block with rfl | rfl
    · exact absurd rfl served
    · bv_omega

def letterEntry {scommand : Addr} (nonnull : scommand ≠ 0) (low : scommand.toNat ≤ 0x4000) (max : Word) {ptr : Addr}
    (block : ptr = 0 ∨ ptr = 0x8000) : ParseEntry :=
  ⟨letterCall scommand max ptr, letterBytes letter scommand, [letter],
    letterCall_meets commandArguments_letter (by decide) nonnull low max block⟩

/-- A pointer that the tokenizer has is followed, whatever the string is that it is given. -/
theorem strtok_ended {fuel : Nat} (positive : 0 < fuel) (str : Addr) (state : Tokenizer) (busy : state.sp ≠ 0)
    (ended : state.bytes state.sp = 0) : strtok fuel str [space] state = some (0, { state with sp := 0 }) := by
  obtain ⟨fuel, rfl⟩ : ∃ rest, fuel = rest + 1 := ⟨fuel - 1, by omega⟩
  have skipped : skipDelimiters state.bytes [space] (fuel + 1) state.sp = some state.sp := by
    rw [skipDelimiters, delimiterIndex_space, ended, if_neg (by decide)]
  unfold strtok
  rw [if_neg (fun both => busy both.2)]
  dsimp only
  rw [if_neg (fun both => busy both.2), skipped]
  exact if_pos ended

theorem letterCall_stale {fuel : Nat} (positive : 0 < fuel) {scommand sp : Addr} (nonnull : scommand ≠ 0)
    (low : scommand.toNat ≤ 0x4000) {ptr : Addr} (block : ptr = 0 ∨ ptr = 0x8000) (stale : sp ≠ 0)
    (other : sp ≠ scommand ∧ sp ≠ scommand + 0x1000) :
    ∃ after, peachosParseCommand fuel (letterCall scommand 1024 ptr) ⟨letterBytes letter scommand, sp⟩ = some (0, after) := by
  have meets := letterCall_meets commandArguments_letter (by decide) nonnull low 1024 block
  have held : HoldsString (letterBytes letter scommand) (scommand + 0x1000) [letter] := meets.held
  have accepted : ¬sizeofScommand ≤ (letterCall scommand 1024 ptr).max.toNat := by
    show ¬1025 ≤ (1024 : Word).toNat
    decide
  have empty : strncpyAt (letterBytes letter scommand) scommand (scommand + 0x1000) sizeofScommand sp = 0 := by
    rw [strncpyAt_cuts sizeofScommand held]
    · show Function.update (Function.update (letterBytes letter scommand) scommand letter) (scommand + 1) 0 sp = 0
      rw [Function.update_apply, Function.update_of_ne other.1, letterBytes, Function.update_of_ne other.2]
      exact ite_self _
    · intro a _ room b bound same
      have small : b ≤ 1 := bound
      unfold sizeofScommand at room
      bv_omega
  unfold peachosParseCommand
  rw [if_neg accepted]
  dsimp only [letterCall]
  generalize strncpyAt (letterBytes letter scommand) scommand (scommand + 0x1000) sizeofScommand = copied at empty ⊢
  rw [strtok_ended positive scommand ⟨copied, sp⟩ stale empty]
  exact ⟨_, if_pos rfl⟩

theorem returnsOwn_letter {scommand : Addr} (nonnull : scommand ≠ 0) (low : scommand.toNat ≤ 0x4000) {after : Tokenizer} :
    ¬ReturnsOwn (letterEntry nonnull low 1024 (Or.inr rfl)) 0 after := by
  intro own
  have accepted : ¬sizeofScommand ≤ (letterEntry nonnull low 1024 (Or.inr rfl)).call.max.toNat := by
    show ¬1025 ≤ (1024 : Word).toNat
    decide
  unfold ReturnsOwn at own
  rw [if_neg accepted] at own
  unfold ParseCall.Returns at own
  rw [show (letterEntry nonnull low 1024 (Or.inr rfl)).text = [letter] from rfl, commandArguments_letter] at own
  exact own.1 rfl

theorem not_eachCall_stale {fuel : Nat} (positive : 0 < fuel) {sp : Addr} (stale : sp ≠ 0) :
    ∃ next, ¬EachCall (peachosParseCommand fuel) ReturnsOwn sp [next] := by
  -- an array and a command that the pointer is not the start of
  obtain ⟨scommand, nonnull, low, other⟩ : ∃ scommand : Addr, scommand ≠ 0 ∧ scommand.toNat ≤ 0x4000 ∧
      sp ≠ scommand ∧ sp ≠ scommand + 0x1000 := by
    by_cases first : sp = 0x1000 ∨ sp = 0x2000
    · exact ⟨0x3000, by decide, by decide, by rcases first with rfl | rfl <;> decide⟩
    · exact ⟨0x1000, by decide, by decide, not_or.mp first⟩
  refine ⟨letterEntry nonnull low 1024 (Or.inr rfl), ?_⟩
  rintro ⟨root, after, parsed, own, _⟩
  obtain ⟨last, null⟩ := letterCall_stale positive nonnull low (Or.inr rfl) stale other
  obtain ⟨rfl, rfl⟩ := Prod.mk.inj (Option.some.inj (null.symm.trans parsed))
  exact returnsOwn_letter nonnull low own

theorem finishes_of_each {fuel : Nat} (enough : sizeofScommand ≤ fuel) {calls : List ParseEntry}
    (each : ∀ begun, begun <+: calls → ∀ next, EachCall (peachosParseCommand fuel) ReturnsOwn 0 (begun ++ [next])) :
    ∀ entry ∈ calls, entry.Finishes := by
  have positive : 0 < fuel := by
    unfold sizeofScommand at enough
    omega
  induction calls with
  | nil => exact fun entry member => absurd member List.not_mem_nil
  | cons entry later ih =>
    obtain ⟨root, after, parsed, _, ready⟩ := entry.step enough
    have goesOn : ∀ begun, begun <+: later → ∀ next,
        EachCall (peachosParseCommand fuel) ReturnsOwn after.sp (begun ++ [next]) := by
      intro begun inside next
      obtain ⟨_, _, same, _, rest⟩ := each (entry :: begun) (List.cons_prefix_cons.mpr ⟨rfl, inside⟩) next
      obtain ⟨rfl, rfl⟩ := Prod.mk.inj (Option.some.inj (same.symm.trans parsed))
      exact rest
    have idle : after.sp = 0 := by
      by_contra stale
      obtain ⟨next, wrong⟩ := not_eachCall_stale positive stale
      exact wrong (goesOn [] List.nil_prefix next)
    rw [idle] at goesOn
    exact List.forall_mem_cons.mpr ⟨ready.mp idle, ih goesOn⟩

end Letter

/-- With a `max` that is at most 1024 and not negative, and no allocation that fails, each call of a run returns the
words of its command. -/
theorem peachosParseCommand_words {fuel : Nat} (enough : sizeofScommand ≤ fuel) (calls : List ParseEntry)
    (small : ∀ entry ∈ calls, 0 ≤ entry.call.max.toInt ∧ entry.call.max.toInt ≤ 1024)
    (complete : ∀ entry ∈ calls, entry.call.Complete entry.text) :
    EachCall (peachosParseCommand fuel) ReturnsWords 0 calls := by
  induction calls with
  | nil => trivial
  | cons entry later ih =>
    obtain ⟨bounds, smallLater⟩ := List.forall_mem_cons.mp small
    obtain ⟨served, servedLater⟩ := List.forall_mem_cons.mp complete
    have accepted : entry.call.max.toNat < sizeofScommand := by
      have sign := BitVec.toInt_eq_toNat_cond entry.call.max
      unfold sizeofScommand
      split at sign <;> omega
    obtain ⟨root, after, parsed, returned, ready⟩ := entry.meets.parses accepted enough
    have idle : after.sp = 0 := ready.mpr served
    unfold ParseCall.Returns at returned
    rw [served.served] at returned
    refine ⟨root, after, parsed, ⟨⟨_, returned⟩, ?_, idle⟩, ?_⟩
    · rw [ArgumentList.null_iff returned, commandArguments_eq_nil_iff]
    · rw [idle]
      exact ih smallLater servedLater

def letterLine (max : Word) : ParseEntry :=
  letterEntry (by decide : (0x1000 : Addr) ≠ 0) (by decide) max (Or.inr rfl : (0x8000 : Addr) = 0 ∨ _)

def letterRefused : ParseEntry :=
  letterEntry (by decide : (0x1000 : Addr) ≠ 0) (by decide) 1024 (Or.inl rfl : (0 : Addr) = 0 ∨ _)

theorem letterLine_complete (max : Word) : (letterLine max).call.Complete (letterLine max).text := by
  intro k _
  show (0x8000 : Addr) ≠ 0
  decide

theorem peachosParseCommand_words_letter : sizeofScommand ≤ 1025 ∧
    EachCall (peachosParseCommand 1025) ReturnsWords 0 [letterLine 1024, letterLine 1024] := by
  refine ⟨Nat.le_refl _, peachosParseCommand_words (Nat.le_refl _) _ ?_ ?_⟩
  · intro entry member
    obtain rfl : entry = letterLine 1024 := by simpa using member
    show 0 ≤ (1024 : Word).toInt ∧ (1024 : Word).toInt ≤ 1024
    decide
  · intro entry member
    obtain rfl : entry = letterLine 1024 := by simpa using member
    exact letterLine_complete 1024

/-- A negative `max` is refused: the comparison with the size of the array is unsigned. -/
theorem peachosParseCommand_words_negative : ¬∀ calls : List ParseEntry,
    (∀ entry ∈ calls, entry.call.max.toInt ≤ 1024 ∧ entry.call.Complete entry.text) →
      EachCall (peachosParseCommand 1025) ReturnsWords 0 calls := by
  intro each
  have negative : ∀ entry ∈ [letterLine (-1)], entry.call.max.toInt ≤ 1024 ∧ entry.call.Complete entry.text := by
    refine List.forall_mem_singleton.mpr ⟨?_, letterLine_complete (-1)⟩
    show (-1 : Word).toInt ≤ 1024
    decide
  obtain ⟨root, after, parsed, ⟨_, spaces, _⟩, _⟩ := each _ negative
  have refused : sizeofScommand ≤ (letterLine (-1)).call.max.toNat := by
    show 1025 ≤ (-1 : Word).toNat
    decide
  unfold peachosParseCommand at parsed
  rw [if_pos refused] at parsed
  obtain ⟨rfl, rfl⟩ := Prod.mk.inj (Option.some.inj parsed)
  exact absurd (spaces.mp rfl letter List.mem_cons_self) (by decide)

/-- Each call of a run, and whatever call comes next, has its own result, exactly if no call so far came to an
allocation that fails. -/
theorem peachosParseCommand_independent {fuel : Nat} (enough : sizeofScommand ≤ fuel) (calls : List ParseEntry) :
    (∀ begun, begun <+: calls → ∀ next, EachCall (peachosParseCommand fuel) ReturnsOwn 0 (begun ++ [next])) ↔
      ∀ entry ∈ calls, entry.Finishes := by
  constructor
  · exact finishes_of_each enough
  · intro finishes begun inside next
    refine EachCall.of_ready (fun entry => ?_) (fun entry member => finishes entry (inside.subset member)) next
    obtain ⟨root, after, parsed, own, ready⟩ := entry.step enough
    exact ⟨root, after, parsed, own, ready.mpr⟩

theorem peachosParseCommand_independent_letter : sizeofScommand ≤ 1025 ∧
    ∀ next, EachCall (peachosParseCommand 1025) ReturnsOwn 0 ([letterLine 1024] ++ [next]) := by
  refine ⟨Nat.le_refl _, (peachosParseCommand_independent (Nat.le_refl _) [letterLine 1024]).mpr ?_ _
    (List.prefix_refl _)⟩
  exact List.forall_mem_singleton.mpr (fun _ => letterLine_complete 1024)

/-- After a call whose allocation failed, the same command comes to nothing. -/
theorem peachosParseCommand_follows_stale :
    ¬∀ calls : List ParseEntry, EachCall (peachosParseCommand 1025) ReturnsOwn 0 calls := by
  intro each
  obtain ⟨root, after, parsed, _, _, last, again, own, _⟩ := each [letterRefused, letterLine 1024]
  have left : (peachosParseCommand 1025 (letterCall 0x1000 1024 0) ⟨letterBytes letter 0x1000, 0⟩).map
      (fun result => result.2.sp) = some 0x1001 := by
    decide +kernel
  have stale : after.sp = 0x1001 := by
    rw [show peachosParseCommand 1025 (letterCall 0x1000 1024 0) ⟨letterBytes letter 0x1000, 0⟩ = _ from parsed] at left
    exact Option.some.inj left
  rw [stale] at again
  obtain ⟨ended, null⟩ := letterCall_stale (by decide : 0 < 1025) (by decide : (0x1000 : Addr) ≠ 0) (by decide)
    (Or.inr rfl : (0x8000 : Addr) = 0 ∨ _) (by decide : (0x1001 : Addr) ≠ 0) (by decide)
  obtain ⟨rfl, rfl⟩ := Prod.mk.inj (Option.some.inj (null.symm.trans again))
  exact returnsOwn_letter _ _ own

end PeachOS.Stdlib
