import PeachOS.ArgumentList
import PeachOS.Lib.Interval

/-! `strtok` of the user's `string.c`. It keeps a pointer between its calls, and puts terminators into the string
that it goes over. -/

namespace PeachOS.Stdlib
open ByteMemory Search

abbrev space : Byte := 0x20

/-- The memory of the program, and the variable `sp`. -/
structure Tokenizer where
  bytes : Bytes
  sp : Addr

/-- The index where the loop over `delimiters` breaks, if it does. -/
def delimiterIndex (delimiters : List Byte) (c : Byte) : Option Nat :=
  firstIndex (strlen delimiters) (fun i => c == delimiters.getD i 0)

/-- The loop that goes over the delimiters before a token; none when it does not end in `fuel` rounds. -/
def skipDelimiters (bytes : Bytes) (delimiters : List Byte) : (fuel : Nat) → (pStart : Addr) → Option Addr
  | 0, _ => none
  | fuel + 1, pStart =>
      match delimiterIndex delimiters (bytes pStart) with
      | some _ => skipDelimiters bytes delimiters fuel (pStart + 1)
      | none => some pStart

/-- The loop to the end of the token. The delimiter there becomes a terminator, and `sp` goes past it. -/
def endToken (bytes : Bytes) (delimiters : List Byte) : (fuel : Nat) → (sp : Addr) → Option Tokenizer
  | 0, _ => none
  | fuel + 1, sp =>
      if bytes sp = 0 then some ⟨bytes, sp⟩
      else
        match delimiterIndex delimiters (bytes sp) with
        | some _ => some ⟨Function.update bytes sp 0, sp + 1⟩
        | none => endToken bytes delimiters fuel (sp + 1)

def strtok (fuel : Nat) (str : Addr) (delimiters : List Byte) (state : Tokenizer) : Option (Addr × Tokenizer) :=
  if str = 0 ∧ state.sp = 0 then some (0, state)
  else
    let sp := if str ≠ 0 ∧ state.sp = 0 then str else state.sp
    match skipDelimiters state.bytes delimiters fuel sp with
    | none => none
    | some pStart =>
        if state.bytes pStart = 0 then some (0, { state with sp := 0 })
        else
          match endToken state.bytes delimiters fuel pStart with
          | none => none
          | some after => some (pStart, after)

/-- The space-free words of a text, in order. -/
def words (text : List Byte) : List (List Byte) := (text.splitOn space).filter (fun word => word ≠ [])

section Words
variable {word text rest : List Byte}

theorem words_nil : words [] = [] := by
  unfold words
  rw [List.splitOn_nil]
  rfl

theorem words_space (text : List Byte) : words (space :: text) = words text := by
  unfold words
  rw [List.splitOn_cons_eq_if_modifyHead, if_pos (by decide), List.filter_cons]
  rfl

theorem words_single (nonempty : word ≠ []) (free : space ∉ word) : words word = [word] := by
  unfold words
  rw [List.splitOn_eq_singleton free, List.filter_singleton]
  simp [nonempty]

theorem words_cons (nonempty : word ≠ []) (free : space ∉ word) (rest : List Byte) :
    words (word ++ space :: rest) = word :: words rest := by
  unfold words
  rw [List.splitOn_append_cons_self, List.filter_append, List.splitOn_eq_singleton free, List.filter_singleton]
  simp [nonempty]

theorem words_length_le (text : List Byte) : (words text).length ≤ text.length + 1 := by
  refine (List.length_filter_le _ _).trans ?_
  induction text with
  | nil => exact Nat.le_refl _
  | cons c text ih =>
    rw [List.splitOn_cons_eq_if_modifyHead]
    split
    · exact Nat.succ_le_succ ih
    · rw [List.length_modifyHead]
      exact ih.trans (Nat.le_succ _)

theorem splits_at_space (text : List Byte) :
    ∃ word, space ∉ word ∧ (text = word ∨ ∃ tail, text = word ++ space :: tail) := by
  induction text with
  | nil => exact ⟨[], List.not_mem_nil, Or.inl rfl⟩
  | cons c text ih =>
    by_cases isSpace : c = space
    · exact ⟨[], List.not_mem_nil, Or.inr ⟨text, by rw [isSpace]; rfl⟩⟩
    · obtain ⟨word, free, split⟩ := ih
      refine ⟨c :: word, fun member => (List.mem_cons.mp member).elim (fun same => isSpace same.symm) free, ?_⟩
      exact split.imp (fun whole => by rw [whole]) (fun ⟨tail, parts⟩ => ⟨tail, by rw [parts, List.cons_append]⟩)

theorem words_take {n : Nat} {later : List (List Byte)} (first : words (text.take n) = word :: later) :
    ∃ whole others, words text = whole :: others ∧ word <+: whole := by
  induction text generalizing n with
  | nil =>
    rw [List.take_nil, words_nil] at first
    cases first
  | cons c text ih =>
    cases n with
    | zero => cases first
    | succ n =>
      by_cases isSpace : c = space
      · rw [isSpace, List.take_succ_cons, words_space] at first
        rw [isSpace, words_space]
        exact ih first
      · obtain ⟨whole, free, split⟩ := splits_at_space (c :: text)
        have nonempty : whole ≠ [] := by
          rintro rfl
          rcases split with none | ⟨tail, parts⟩
          · cases none
          · exact isSpace (List.head_eq_of_cons_eq parts)
        have begun : whole.take (n + 1) ≠ [] := fun none =>
          (List.take_eq_nil_iff.mp none).elim (Nat.succ_ne_zero n) nonempty
        have freeTake : space ∉ whole.take (n + 1) := fun member => free (List.mem_of_mem_take member)
        rcases split with all | ⟨tail, parts⟩
        · rw [all, words_single begun freeTake, List.cons.injEq] at first
          refine ⟨whole, [], by rw [all, words_single nonempty free], ?_⟩
          rw [← first.1]
          exact List.take_prefix _ _
        · refine ⟨whole, words tail, by rw [parts, words_cons nonempty free], ?_⟩
          rw [parts] at first
          rcases Nat.lt_or_ge whole.length (n + 1) with longer | shorter
          · rw [List.take_append, List.take_of_length_le (Nat.le_of_lt longer),
              show n + 1 - whole.length = (n - whole.length) + 1 by omega, List.take_succ_cons,
              words_cons nonempty free, List.cons.injEq] at first
            rw [← first.1]
          · rw [List.take_append_of_le_length shorter, words_single begun freeTake, List.cons.injEq] at first
            rw [← first.1]
            exact List.take_prefix _ _

theorem words_eq_nil_iff (text : List Byte) : words text = [] ↔ ∀ c ∈ text, c = space := by
  induction text with
  | nil => exact iff_of_true words_nil (fun c member => absurd member List.not_mem_nil)
  | cons c text ih =>
    rw [List.forall_mem_cons]
    by_cases isSpace : c = space
    · rw [isSpace, words_space, ih, and_iff_right rfl]
    · refine iff_of_false ?_ (fun all => isSpace all.1)
      obtain ⟨first, rest, split⟩ := List.exists_cons_of_ne_nil (List.splitOn_ne_nil space text)
      have other : ¬(c == space) = true := fun same => isSpace (eq_of_beq same)
      unfold words
      rw [List.splitOn_cons_eq_if_modifyHead, if_neg other, split, List.modifyHead_cons, List.filter_cons_of_pos (by simp)]
      exact List.cons_ne_nil _ _

end Words

theorem delimiterIndex_space (c : Byte) : delimiterIndex [space] c = if c = space then some 0 else none := by
  unfold delimiterIndex
  have length : strlen [space] = 1 := rfl
  rw [length]
  split
  next same =>
    rw [same]
    rfl
  next other =>
    have test : (c == space) = false := beq_eq_false_iff_ne.mpr other
    exact List.find?_cons_of_neg (by simpa using test)

section Scan
variable {bytes : Bytes} {p : Addr} {c : Byte} {text : List Byte}

theorem skipDelimiters_text (held : HoldsString bytes p text) {fuel : Nat} (enough : text.length < fuel) :
    ∃ n rest, n + rest.length = text.length ∧
      skipDelimiters bytes [space] fuel p = some (p + BitVec.ofNat 32 n) ∧
      HoldsString bytes (p + BitVec.ofNat 32 n) rest ∧ words text = words rest ∧ rest.head? ≠ some space := by
  induction text generalizing p fuel with
  | nil =>
    obtain ⟨fuel, rfl⟩ : ∃ rest, fuel = rest + 1 := ⟨fuel - 1, by omega⟩
    refine ⟨0, [], rfl, ?_, by rwa [BitVec.add_zero], rfl, by simp⟩
    rw [skipDelimiters, delimiterIndex_space, held.ends, if_neg (by decide), BitVec.add_zero]
  | cons c text ih =>
    obtain ⟨fuel, rfl⟩ : ∃ rest, fuel = rest + 1 := ⟨fuel - 1, by omega⟩
    obtain ⟨first, tail⟩ := held.tail
    rw [skipDelimiters, delimiterIndex_space, first]
    by_cases isSpace : c = space
    · rw [List.length_cons] at enough
      obtain ⟨n, rest, lengths, skipped, left, same, head⟩ := ih tail (by omega : text.length < fuel)
      have next : p + 1 + BitVec.ofNat 32 n = p + BitVec.ofNat 32 (n + 1) := by bv_omega
      rw [next] at skipped left
      refine ⟨n + 1, rest, by rw [List.length_cons]; omega, ?_, left, ?_, head⟩
      · rw [if_pos isSpace]
        exact skipped
      · rw [isSpace, words_space, same]
    · refine ⟨0, c :: text, Nat.zero_add _, ?_, by rwa [BitVec.add_zero], rfl, ?_⟩
      · rw [if_neg isSpace, BitVec.add_zero]
      · simpa using isSpace

theorem endToken_text (held : HoldsString bytes p text) (short : text.length < 2 ^ 32) {fuel : Nat}
    (enough : text.length < fuel) :
    ∃ word tail n after, endToken bytes [space] fuel p = some after ∧ after.sp = p + BitVec.ofNat 32 n ∧
      n + tail.length = text.length ∧ word.length ≤ n ∧ HoldsString after.bytes p word ∧
      HoldsString after.bytes after.sp tail ∧ space ∉ word ∧
      ((text = word ∧ tail = []) ∨ text = word ++ space :: tail) ∧
      ∀ address, (∀ j < text.length, address ≠ p + BitVec.ofNat 32 j) → after.bytes address = bytes address := by
  induction text generalizing p fuel with
  | nil =>
    obtain ⟨fuel, rfl⟩ : ∃ rest, fuel = rest + 1 := ⟨fuel - 1, by omega⟩
    have ended : endToken bytes [space] (fuel + 1) p = some ⟨bytes, p⟩ := if_pos (held.ends)
    exact ⟨[], [], 0, ⟨bytes, p⟩, ended, (BitVec.add_zero p).symm, rfl, Nat.le_refl _, held, held,
      List.not_mem_nil, Or.inl ⟨rfl, rfl⟩, fun _ _ => rfl⟩
  | cons c text ih =>
    obtain ⟨fuel, rfl⟩ : ∃ rest, fuel = rest + 1 := ⟨fuel - 1, by omega⟩
    obtain ⟨first, tail⟩ := held.tail
    have nonzero : ¬bytes p = 0 := by
      rw [first]
      exact held.1 c List.mem_cons_self
    rw [List.length_cons] at short enough
    rw [endToken, if_neg nonzero, delimiterIndex_space, first]
    by_cases isSpace : c = space
    · rw [if_pos isSpace]
      refine ⟨[], text, 1, _, rfl, rfl, by rw [List.length_cons]; omega, Nat.zero_le _, ?_, ?_, List.not_mem_nil,
        Or.inr (by rw [isSpace]; rfl), ?_⟩
      · refine ⟨fun d member => absurd member List.not_mem_nil, ?_⟩
        show [Function.update bytes p 0 p] = _
        rw [Function.update_self]
        rfl
      · refine tail.congr (fun j bound => Function.update_of_ne ?_ _ _)
        bv_omega
      · intro address apart
        have here := apart 0 (by rw [List.length_cons]; omega)
        rw [BitVec.add_zero] at here
        exact Function.update_of_ne here _ _
    · rw [if_neg isSpace]
      obtain ⟨word, rest, n, after, ended, place, lengths, inside, wordHeld, restHeld, free, split, kept⟩ :=
        ih tail (by omega) (by omega : text.length < fuel)
      refine ⟨c :: word, rest, n + 1, after, ended, ?_, ?_, ?_, ?_, restHeld, ?_, ?_, ?_⟩
      · rw [place]
        bv_omega
      · rw [List.length_cons]
        omega
      · rw [List.length_cons]
        omega
      · have same : after.bytes p = bytes p := kept p (fun j bound => by bv_omega)
        exact wordHeld.cons (same.trans first) (held.1 c List.mem_cons_self)
      · exact fun member => (List.mem_cons.mp member).elim (fun same => isSpace same.symm) free
      · rcases split with ⟨rfl, none⟩ | rfl
        · exact Or.inl ⟨rfl, none⟩
        · exact Or.inr rfl
      · intro address apart
        refine kept address (fun j bound => ?_)
        have later := apart (j + 1) (by rw [List.length_cons]; omega)
        rwa [show p + BitVec.ofNat 32 (j + 1) = p + 1 + BitVec.ofNat 32 j by bv_omega] at later

end Scan

/-- The size of the array that `peachos_parse_command` cuts up. -/
abbrev sizeofScommand : Nat := 1025

/-- An array of that size on the stack: it holds neither the null address nor the top of memory. -/
structure OnStack (scommand : Addr) : Prop where
  nonnull : scommand ≠ 0
  top : scommand.toNat + sizeofScommand ≤ 2 ^ 32

/-- The string at `p` is in the array. -/
structure TextIn (scommand : Addr) (bytes : Bytes) (p : Addr) (text : List Byte) : Prop where
  held : HoldsString bytes p text
  inside : ∃ k, p = scommand + BitVec.ofNat 32 k ∧ k + text.length < sizeofScommand

section Tokens
variable {scommand p : Addr} {bytes : Bytes} {text : List Byte}

theorem OnStack.inside_nonnull (stack : OnStack scommand) {k : Nat} (bound : k < sizeofScommand) :
    scommand + BitVec.ofNat 32 k ≠ 0 := by
  have nonnull := stack.nonnull
  have top := stack.top
  unfold sizeofScommand at top bound
  bv_omega

theorem TextIn.nonnull (inside : TextIn scommand bytes p text) (stack : OnStack scommand) : p ≠ 0 := by
  obtain ⟨k, rfl, bound⟩ := inside.inside
  exact stack.inside_nonnull (by omega)

theorem TextIn.short (inside : TextIn scommand bytes p text) : text.length < sizeofScommand := by
  obtain ⟨k, _, bound⟩ := inside.inside
  omega

theorem TextIn.congr {other : Bytes} (inside : TextIn scommand bytes p text)
    (same : ∀ address, (address - scommand).toNat < sizeofScommand → other address = bytes address) :
    TextIn scommand other p text := by
  obtain ⟨k, place, bound⟩ := inside.inside
  refine ⟨inside.held.congr (fun j within => same _ ?_), k, place, bound⟩
  rw [place]
  unfold sizeofScommand at *
  bv_omega

/-- What `strtok` returns and leaves, where these words are to come. -/
def NextToken (scommand token : Addr) (after : Tokenizer) : List (List Byte) → Prop
  | [] => token = 0 ∧ after.sp = 0
  | word :: later => token ≠ 0 ∧ after.sp ≠ 0 ∧ TextIn scommand after.bytes token word ∧
      ∃ left, TextIn scommand after.bytes after.sp left ∧ words left = later

theorem TextIn.strtok (inside : TextIn scommand bytes p text) (stack : OnStack scommand) {fuel : Nat}
    (enough : sizeofScommand ≤ fuel) (str : Addr) (state : Tokenizer) (memory : state.bytes = bytes)
    (start : (if str ≠ 0 ∧ state.sp = 0 then str else state.sp) = p) :
    ∃ token after, Stdlib.strtok fuel str [space] state = some (token, after) ∧
      NextToken scommand token after (words text) ∧
      ∀ address, sizeofScommand ≤ (address - scommand).toNat → after.bytes address = bytes address := by
  have short := inside.short
  have nonnull := inside.nonnull stack
  obtain ⟨k, place, bound⟩ := inside.inside
  obtain ⟨n, rest, lengths, skipped, held, same, head⟩ := skipDelimiters_text inside.held (by omega : text.length < fuel)
  have started : ¬(str = 0 ∧ state.sp = 0) := by
    rintro ⟨null, idle⟩
    rw [if_neg (fun both => both.1 null), idle] at start
    exact nonnull start.symm
  have tokenPlace : p + BitVec.ofNat 32 n = scommand + BitVec.ofNat 32 (k + n) := by
    rw [place]
    bv_omega
  unfold Stdlib.strtok
  rw [if_neg started]
  dsimp only
  rw [start, memory, skipped]
  dsimp only
  rw [same]
  rcases rest with _ | ⟨c, rest⟩
  · rw [if_pos held.ends, words_nil]
    exact ⟨0, _, rfl, ⟨rfl, rfl⟩, fun address _ => rfl⟩
  · have isWord : c ≠ space := by simpa using head
    have nonzero : ¬bytes (p + BitVec.ofNat 32 n) = 0 := by
      rw [held.tail.1]
      exact held.1 c List.mem_cons_self
    obtain ⟨word, tail, m, after, ended, spPlace, rests, inWord, wordHeld, tailHeld, free, split, kept⟩ :=
      endToken_text held (by unfold sizeofScommand at short; omega) (by omega : (c :: rest).length < fuel)
    rw [if_neg nonzero, ended]
    have wordNonempty : word ≠ [] := by
      rintro rfl
      rcases split with ⟨none, _⟩ | begins
      · cases none
      · rw [List.nil_append, List.cons.injEq] at begins
        exact isWord begins.1
    have list : words (c :: rest) = word :: words tail := by
      rcases split with ⟨whole, none⟩ | whole
      · rw [whole, none, words_single wordNonempty free, words_nil]
      · rw [whole, words_cons wordNonempty free]
    rw [list]
    have left : TextIn scommand after.bytes after.sp tail := by
      refine ⟨tailHeld, k + n + m, ?_, by omega⟩
      rw [spPlace, tokenPlace]
      bv_omega
    refine ⟨_, after, rfl,
      ⟨?_, left.nonnull stack, ⟨wordHeld, k + n, tokenPlace, by omega⟩, tail, left, rfl⟩, ?_⟩
    · rw [tokenPlace]
      exact stack.inside_nonnull (by omega)
    · intro address outside
      refine kept address (fun j bound same => ?_)
      rw [tokenPlace] at same
      unfold sizeofScommand at *
      bv_omega

end Tokens

end PeachOS.Stdlib
