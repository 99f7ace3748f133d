import PeachOS.Lib.Tokens
import PeachOS.Tokenizer

/-! `strtok` called on a string and then with null, until it returns null. -/

namespace PeachOS
open ByteMemory

section Strings
variable {bytes : Bytes} {before word rest : List Byte} {p : Addr}

theorem HoldsString.drop (held : HoldsString bytes p (before ++ rest)) :
    HoldsString bytes (p + BitVec.ofNat 32 before.length) rest := by
  induction before generalizing p with
  | nil => rwa [List.length_nil, BitVec.add_zero]
  | cons c before ih =>
    have left := ih held.tail.2
    rwa [show p + 1 + BitVec.ofNat 32 before.length = p + BitVec.ofNat 32 (before.length + 1) by bv_omega] at left

theorem HoldsString.cut (held : HoldsString bytes p (word ++ rest)) (short : word.length < 2 ^ 32) :
    HoldsString (Function.update bytes (p + BitVec.ofNat 32 word.length) 0) p word := by
  induction word generalizing p with
  | nil =>
    refine ⟨fun c member => absurd member List.not_mem_nil, ?_⟩
    rw [List.length_nil, BitVec.add_zero, List.nil_append, loadBytes, Function.update_self]
    rfl
  | cons c word ih =>
    obtain ⟨here, tail⟩ := held.tail
    rw [List.length_cons] at short ⊢
    have next : p + BitVec.ofNat 32 (word.length + 1) = p + 1 + BitVec.ofNat 32 word.length := by bv_omega
    have apart : p ≠ p + BitVec.ofNat 32 (word.length + 1) := by bv_omega
    refine HoldsString.cons ?_ (held.1 c List.mem_cons_self) ?_
    · rw [Function.update_of_ne apart, here]
    · rw [next]
      exact ih tail (by omega)

end Strings

end PeachOS

namespace PeachOS.Stdlib
open ByteMemory Search Tokens

/-- A character of the string `delimiters`. -/
def IsDelimiter (delimiters : List Byte) (c : Byte) : Prop := c ∈ delimiters.take (strlen delimiters)

section Within
variable (within : Addr → Prop) [DecidablePred within]

/-- `skipDelimiters` where only some places may be touched. -/
def skipDelimitersIn (bytes : Bytes) (delimiters : List Byte) : (fuel : Nat) → (pStart : Addr) → Option Addr
  | 0, _ => none
  | fuel + 1, pStart =>
      if ¬within pStart then none
      else
        match delimiterIndex delimiters (bytes pStart) with
        | some _ => skipDelimitersIn bytes delimiters fuel (pStart + 1)
        | none => some pStart

/-- `endToken` where only some places may be touched. -/
def endTokenIn (bytes : Bytes) (delimiters : List Byte) : (fuel : Nat) → (sp : Addr) → Option Tokenizer
  | 0, _ => none
  | fuel + 1, sp =>
      if ¬within sp then none
      else if bytes sp = 0 then some ⟨bytes, sp⟩
      else
        match delimiterIndex delimiters (bytes sp) with
        | some _ => some ⟨Function.update bytes sp 0, sp + 1⟩
        | none => endTokenIn bytes delimiters fuel (sp + 1)

/-- `strtok` where only some places may be touched; none when it touches another. -/
def strtokIn (fuel : Nat) (str : Addr) (delimiters : List Byte) (state : Tokenizer) : Option (Addr × Tokenizer) :=
  if str = 0 ∧ state.sp = 0 then some (0, state)
  else
    let sp := if str ≠ 0 ∧ state.sp = 0 then str else state.sp
    match skipDelimitersIn within state.bytes delimiters fuel sp with
    | none => none
    | some pStart =>
        if ¬within pStart then none
        else if state.bytes pStart = 0 then some (0, { state with sp := 0 })
        else
          match endTokenIn within state.bytes delimiters fuel pStart with
          | none => none
          | some after => some (pStart, after)

end Within

/-- The calls up to the one that returns null, each with what it returns and leaves, and what that last one leaves. -/
def callsUntilNull (call : Addr → Tokenizer → Option (Addr × Tokenizer)) :
    (calls : Nat) → (str : Addr) → Tokenizer → Option (List (Addr × Tokenizer) × Tokenizer)
  | 0, _, _ => none
  | calls + 1, str, state =>
      match call str state with
      | none => none
      | some (token, after) =>
          if token = 0 then some ([], after)
          else (callsUntilNull call calls 0 after).map (fun rest => ((token, after) :: rest.1, rest.2))

/-- A call returns the token, which is there then and at the end. -/
def Yields (p : Addr) (last : Tokenizer) (token : Nat × List Byte) (call : Addr × Tokenizer) : Prop :=
  call.1 = p + BitVec.ofNat 32 token.1 ∧ HoldsString call.2.bytes call.1 token.2 ∧ HoldsString last.bytes call.1 token.2

/-- Nothing changes but delimiters of the text at `p`, which become terminators. -/
def CutAt (delimiters : List Byte) (p : Addr) (text : List Byte) (before after : Bytes) : Prop :=
  ∀ address, after address = before address ∨ (after address = 0 ∧
    ∃ j c, text[j]? = some c ∧ IsDelimiter delimiters c ∧ address = p + BitVec.ofNat 32 j)

/-- A string that the memory has room for, off the null address. -/
structure Placed (p : Addr) (text : List Byte) : Prop where
  nonnull : p ≠ 0
  top : p.toNat + text.length < 2 ^ 32

/-- The places of a string and its terminator. -/
def InString (str : Addr) (text : List Byte) (address : Addr) : Prop := (address - str).toNat ≤ text.length

instance (str : Addr) (text : List Byte) : DecidablePred (InString str text) :=
  fun _ => inferInstanceAs (Decidable (_ ≤ _))

/-- Where a token ends: at a delimiter, which becomes a terminator, or at the terminator. -/
def tokenEnd (bytes : Bytes) (q : Addr) : List Byte → Tokenizer
  | [] => ⟨bytes, q⟩
  | _ :: _ => ⟨Function.update bytes q 0, q + 1⟩

section Delimiters
variable {delimiters : List Byte} {c : Byte}

theorem delimiterIndex_none_iff : delimiterIndex delimiters c = none ↔ ¬IsDelimiter delimiters c := by
  have short := strlen_le delimiters
  unfold delimiterIndex firstIndex IsDelimiter
  rw [List.find?_range_eq_none, List.mem_take_iff_getElem]
  constructor
  · rintro missing ⟨i, bound, rfl⟩
    have found := missing i (by omega)
    rw [List.getD_eq_getElem?_getD, List.getElem?_eq_getElem (by omega)] at found
    simp at found
  · intro other i bound
    rw [List.getD_eq_getElem?_getD, List.getElem?_eq_getElem (by omega), Option.getD_some]
    simp only [Bool.not_eq_true', beq_eq_false_iff_ne]
    exact fun same => other ⟨i, by omega, same.symm⟩

theorem delimiterIndex_some (delimits : IsDelimiter delimiters c) : ∃ i, delimiterIndex delimiters c = some i := by
  rw [← Option.ne_none_iff_exists']
  exact fun none => delimiterIndex_none_iff.mp none delimits

theorem not_delimiter_zero : ¬IsDelimiter delimiters 0 := fun member => nonzero_of_mem_strlen member rfl

end Delimiters

section Guards
variable {within : Addr → Prop} [DecidablePred within] {bytes : Bytes} {delimiters : List Byte} {p : Addr}

theorem skipDelimitersIn_some {fuel : Nat} {q : Addr} (ran : skipDelimitersIn within bytes delimiters fuel p = some q) :
    skipDelimiters bytes delimiters fuel p = some q := by
  induction fuel generalizing p with
  | zero => cases ran
  | succ fuel ih =>
    rw [skipDelimitersIn] at ran
    rw [skipDelimiters]
    split at ran
    · cases ran
    · cases scan : delimiterIndex delimiters (bytes p) with
      | some i =>
        rw [scan] at ran
        exact ih ran
      | none =>
        rw [scan] at ran
        exact ran

theorem endTokenIn_some {fuel : Nat} {after : Tokenizer}
    (ran : endTokenIn within bytes delimiters fuel p = some after) :
    endToken bytes delimiters fuel p = some after := by
  induction fuel generalizing p with
  | zero => cases ran
  | succ fuel ih =>
    rw [endTokenIn] at ran
    rw [endToken]
    split at ran
    · cases ran
    · split at ran
      next zero =>
        rw [if_pos zero]
        exact ran
      next nonzero =>
        rw [if_neg nonzero]
        cases scan : delimiterIndex delimiters (bytes p) with
        | some i =>
          rw [scan] at ran
          exact ran
        | none =>
          rw [scan] at ran
          exact ih ran

theorem strtokIn_some {fuel : Nat} {str : Addr} {state : Tokenizer} {result : Addr × Tokenizer}
    (ran : strtokIn within fuel str delimiters state = some result) :
    strtok fuel str delimiters state = some result := by
  unfold strtokIn at ran
  unfold strtok
  dsimp only at ran ⊢
  split at ran
  next none =>
    rw [if_pos none]
    exact ran
  next some =>
    rw [if_neg some]
    split at ran
    · cases ran
    next skipped =>
      rw [skipDelimitersIn_some skipped]
      dsimp only
      split at ran
      · cases ran
      · split at ran
        next zero =>
          rw [if_pos zero]
          exact ran
        next nonzero =>
          rw [if_neg nonzero]
          split at ran
          · cases ran
          next ended =>
            rw [endTokenIn_some ended]
            exact ran

theorem callsUntilNull_mono {call other : Addr → Tokenizer → Option (Addr × Tokenizer)}
    (same : ∀ str state result, call str state = some result → other str state = some result) {calls : Nat} {str : Addr}
    {state : Tokenizer} {result : List (Addr × Tokenizer) × Tokenizer}
    (ran : callsUntilNull call calls str state = some result) : callsUntilNull other calls str state = some result := by
  induction calls generalizing str state result with
  | zero => cases ran
  | succ calls ih =>
    rw [callsUntilNull] at ran ⊢
    split at ran
    · cases ran
    next token after called =>
      rw [same _ _ _ called]
      dsimp only
      split at ran
      next null =>
        rw [if_pos null]
        exact ran
      next nonnull =>
        rw [if_neg nonnull]
        obtain ⟨rest, later, whole⟩ := Option.map_eq_some_iff.mp ran
        rw [ih later, Option.map_some, whole]

end Guards

section Calls
variable {within : Addr → Prop} [DecidablePred within] {bytes : Bytes} {delimiters before word rest : List Byte}
  {p : Addr}

theorem skipDelimitersIn_run (held : HoldsString bytes p (before ++ rest))
    (separates : ∀ c ∈ before, IsDelimiter delimiters c) (stops : ∀ c, rest.head? = some c → ¬IsDelimiter delimiters c)
    (inside : ∀ j ≤ before.length, within (p + BitVec.ofNat 32 j)) {fuel : Nat} (enough : before.length < fuel) :
    skipDelimitersIn within bytes delimiters fuel p = some (p + BitVec.ofNat 32 before.length) := by
  induction before generalizing p fuel with
  | nil =>
    obtain ⟨fuel, rfl⟩ : ∃ more, fuel = more + 1 := ⟨fuel - 1, by omega⟩
    have here := inside 0 (Nat.le_refl _)
    have other : ¬IsDelimiter delimiters (bytes p) := by
      cases rest with
      | nil =>
        rw [held.ends]
        exact not_delimiter_zero
      | cons c rest =>
        rw [held.tail.1]
        exact stops c rfl
    rw [BitVec.add_zero] at here
    rw [skipDelimitersIn, if_neg (not_not.mpr here), delimiterIndex_none_iff.mpr other, List.length_nil,
      BitVec.add_zero]
  | cons c before ih =>
    obtain ⟨fuel, rfl⟩ : ∃ more, fuel = more + 1 := ⟨fuel - 1, by omega⟩
    obtain ⟨first, later⟩ := List.forall_mem_cons.mp separates
    obtain ⟨here, tail⟩ := held.tail
    obtain ⟨i, found⟩ := delimiterIndex_some first
    have next : ∀ j, p + 1 + BitVec.ofNat 32 j = p + BitVec.ofNat 32 (j + 1) := fun j => by bv_omega
    have start := inside 0 (Nat.zero_le _)
    rw [BitVec.add_zero] at start
    rw [List.length_cons] at enough inside ⊢
    have ran := ih tail later (fun j bound => next j ▸ inside (j + 1) (by omega)) (by omega : before.length < fuel)
    rw [skipDelimitersIn, if_neg (not_not.mpr start), here, found, ← next]
    exact ran

theorem endTokenIn_run (held : HoldsString bytes p (word ++ rest)) (free : ∀ c ∈ word, ¬IsDelimiter delimiters c)
    (stops : ∀ c, rest.head? = some c → IsDelimiter delimiters c)
    (inside : ∀ j ≤ word.length, within (p + BitVec.ofNat 32 j)) {fuel : Nat} (enough : word.length < fuel) :
    endTokenIn within bytes delimiters fuel p = some (tokenEnd bytes (p + BitVec.ofNat 32 word.length) rest) := by
  induction word generalizing p fuel with
  | nil =>
    obtain ⟨fuel, rfl⟩ : ∃ more, fuel = more + 1 := ⟨fuel - 1, by omega⟩
    have here := inside 0 (Nat.le_refl _)
    rw [BitVec.add_zero] at here
    rw [endTokenIn, if_neg (not_not.mpr here), List.length_nil, BitVec.add_zero]
    cases rest with
    | nil => exact if_pos held.ends
    | cons c rest =>
      obtain ⟨i, found⟩ := delimiterIndex_some (stops c rfl)
      have nonzero : ¬bytes p = 0 := held.tail.1 ▸ held.1 c List.mem_cons_self
      rw [if_neg nonzero, held.tail.1, found]
      rfl
  | cons c word ih =>
    obtain ⟨fuel, rfl⟩ : ∃ more, fuel = more + 1 := ⟨fuel - 1, by omega⟩
    obtain ⟨first, later⟩ := List.forall_mem_cons.mp free
    obtain ⟨here, tail⟩ := held.tail
    have nonzero : ¬bytes p = 0 := here ▸ held.1 c List.mem_cons_self
    have next : ∀ j, p + 1 + BitVec.ofNat 32 j = p + BitVec.ofNat 32 (j + 1) := fun j => by bv_omega
    have start := inside 0 (Nat.zero_le _)
    rw [BitVec.add_zero] at start
    rw [List.length_cons] at enough inside ⊢
    have ran := ih tail later (fun j bound => next j ▸ inside (j + 1) (by omega)) (by omega : word.length < fuel)
    rw [endTokenIn, if_neg (not_not.mpr start), if_neg nonzero, here, delimiterIndex_none_iff.mpr first, ← next]
    exact ran

end Calls

section Cut
variable {bytes : Bytes} {delimiters before word rest text : List Byte} {p : Addr}

theorem Placed.nonnull_at (placed : Placed p text) {j : Nat} (bound : j ≤ text.length) : p + BitVec.ofNat 32 j ≠ 0 := by
  obtain ⟨nonnull, top⟩ := placed
  bv_omega

theorem Placed.distinct (placed : Placed p text) {j k : Nat} (jBound : j ≤ text.length) (kBound : k ≤ text.length)
    (same : p + BitVec.ofNat 32 j = p + BitVec.ofNat 32 k) : j = k := by
  have top := placed.top
  bv_omega

theorem tokenEnd_word (held : HoldsString bytes p (word ++ rest)) (short : word.length < 2 ^ 32) :
    HoldsString (tokenEnd bytes (p + BitVec.ofNat 32 word.length) rest).bytes p word := by
  cases rest with
  | nil => rwa [List.append_nil] at held
  | cons d rest => exact held.cut short

theorem tokenEnd_left (held : HoldsString bytes p (word ++ rest)) (placed : Placed p (word ++ rest)) :
    HoldsString (tokenEnd bytes (p + BitVec.ofNat 32 word.length) rest).bytes
      (tokenEnd bytes (p + BitVec.ofNat 32 word.length) rest).sp rest.tail := by
  have left := held.drop
  cases rest with
  | nil => exact left
  | cons d rest =>
    have top := placed.top
    rw [List.length_append, List.length_cons] at top
    refine left.tail.2.congr (fun j bound => Function.update_of_ne ?_ _ _)
    bv_omega

theorem tokenEnd_place (bytes : Bytes) (p : Addr) (before word rest : List Byte) :
    (tokenEnd bytes (p + BitVec.ofNat 32 before.length + BitVec.ofNat 32 word.length) rest).sp =
      p + BitVec.ofNat 32 ((before ++ (word ++ rest)).length - rest.tail.length) := by
  cases rest with
  | nil =>
    simp only [tokenEnd, List.tail_nil, List.append_nil, List.length_append, List.length_nil, Nat.sub_zero]
    bv_omega
  | cons d rest =>
    simp only [tokenEnd, List.tail_cons, List.length_append, List.length_cons]
    bv_omega

end Cut

section Run
variable {within : Addr → Prop} [DecidablePred within] {delimiters before word rest text : List Byte} {p str : Addr}
  {state : Tokenizer} {fuel : Nat}

/-- Behind the last token a call returns null and the next string can be given. -/
theorem strtokIn_null (held : HoldsString state.bytes p text) (placed : Placed p text)
    (start : (if str ≠ 0 ∧ state.sp = 0 then str else state.sp) = p) (separates : ∀ c ∈ text, IsDelimiter delimiters c)
    (inside : ∀ j ≤ text.length, within (p + BitVec.ofNat 32 j)) (enough : text.length < fuel) :
    strtokIn within fuel str delimiters state = some (0, { state with sp := 0 }) := by
  have given : ¬(str = 0 ∧ state.sp = 0) := by
    rintro ⟨null, idle⟩
    rw [if_neg (fun both => both.1 null), idle] at start
    exact placed.nonnull start.symm
  have whole : HoldsString state.bytes p (text ++ []) := by rwa [List.append_nil]
  have skipped := skipDelimitersIn_run whole separates
    (fun c none => by cases none) inside enough
  have ends : state.bytes (p + BitVec.ofNat 32 text.length) = 0 := by
    rw [← List.append_nil text] at held
    exact held.drop.ends
  unfold strtokIn
  rw [if_neg given]
  dsimp only
  rw [start, skipped]
  dsimp only
  rw [if_neg (not_not.mpr (inside _ (Nat.le_refl _))), if_pos ends]

theorem strtokIn_token (held : HoldsString state.bytes p (before ++ (word ++ rest)))
    (placed : Placed p (before ++ (word ++ rest)))
    (start : (if str ≠ 0 ∧ state.sp = 0 then str else state.sp) = p)
    (separates : ∀ c ∈ before, IsDelimiter delimiters c) (nonempty : word ≠ [])
    (free : ∀ c ∈ word, ¬IsDelimiter delimiters c) (stops : ∀ c, rest.head? = some c → IsDelimiter delimiters c)
    (inside : ∀ j ≤ (before ++ (word ++ rest)).length, within (p + BitVec.ofNat 32 j))
    (enough : (before ++ (word ++ rest)).length < fuel) :
    strtokIn within fuel str delimiters state = some (p + BitVec.ofNat 32 before.length,
      tokenEnd state.bytes (p + BitVec.ofNat 32 before.length + BitVec.ofNat 32 word.length) rest) := by
  have given : ¬(str = 0 ∧ state.sp = 0) := by
    rintro ⟨null, idle⟩
    rw [if_neg (fun both => both.1 null), idle] at start
    exact placed.nonnull start.symm
  rw [List.length_append, List.length_append] at inside enough
  obtain ⟨c, later, rfl⟩ := List.exists_cons_of_ne_nil nonempty
  have skipped : skipDelimitersIn within state.bytes delimiters fuel p = _ := skipDelimitersIn_run held separates
    (fun d first => Option.some.inj first ▸ free c List.mem_cons_self) (fun j bound => inside j (by omega))
    (by omega : before.length < fuel)
  have token := held.drop
  have nonzero : ¬state.bytes (p + BitVec.ofNat 32 before.length) = 0 := by
    rw [token.tail.1]
    exact token.1 c List.mem_cons_self
  have insideToken : ∀ j ≤ (c :: later).length, within (p + BitVec.ofNat 32 before.length + BitVec.ofNat 32 j) := by
    intro j bound
    have place : p + BitVec.ofNat 32 before.length + BitVec.ofNat 32 j = p + BitVec.ofNat 32 (before.length + j) := by
      bv_omega
    rw [place]
    exact inside _ (by omega)
  have ended := endTokenIn_run token free stops insideToken (by omega : (c :: later).length < fuel)
  unfold strtokIn
  rw [if_neg given]
  dsimp only
  rw [start, skipped]
  dsimp only
  rw [if_neg (not_not.mpr (inside _ (by omega))), if_neg nonzero, ended]

theorem tokenEnd_kept {bytes : Bytes} {last : Tokenizer} (held : HoldsString bytes p (word ++ rest))
    (placed : Placed p (word ++ rest))
    (cut : CutAt delimiters (tokenEnd bytes (p + BitVec.ofNat 32 word.length) rest).sp rest.tail
      (tokenEnd bytes (p + BitVec.ofNat 32 word.length) rest).bytes last.bytes) : HoldsString last.bytes p word := by
  have top := placed.top
  rw [List.length_append] at top
  refine (tokenEnd_word held (by omega)).congr (fun j bound => ?_)
  rcases cut (p + BitVec.ofNat 32 j) with same | ⟨_, k, c, behind, _, place⟩
  · exact same
  · have inTail : k < rest.tail.length := (List.getElem?_eq_some_iff.mp behind).1
    cases rest with
    | nil => exact absurd inTail (Nat.not_lt_zero k)
    | cons d rest =>
      rw [List.tail_cons] at inTail
      rw [List.length_cons] at top
      change p + BitVec.ofNat 32 j = p + BitVec.ofNat 32 word.length + 1 + BitVec.ofNat 32 k at place
      bv_omega

theorem cutAt_token {bytes : Bytes} {last : Tokenizer} (stops : ∀ c, rest.head? = some c → IsDelimiter delimiters c)
    (cut : CutAt delimiters (tokenEnd bytes (p + BitVec.ofNat 32 before.length + BitVec.ofNat 32 word.length) rest).sp
      rest.tail (tokenEnd bytes (p + BitVec.ofNat 32 before.length + BitVec.ofNat 32 word.length) rest).bytes
      last.bytes) :
    CutAt delimiters p (before ++ (word ++ rest)) bytes last.bytes := by
  intro address
  cases rest with
  | nil =>
    rcases cut address with same | ⟨_, k, c, behind, _⟩
    · exact Or.inl same
    · cases behind
  | cons d rest =>
    have first : (before ++ (word ++ d :: rest))[before.length + word.length]? = some d := by simp
    have later : ∀ k, (before ++ (word ++ d :: rest))[before.length + word.length + 1 + k]? = rest[k]? := by
      intro k
      rw [List.getElem?_append_right (by omega), List.getElem?_append_right (by omega),
        show before.length + word.length + 1 + k - before.length - word.length = k + 1 by omega,
        List.getElem?_cons_succ]
    rcases cut address with same | ⟨zero, k, c, behind, delimits, place⟩
    · by_cases here : address = p + BitVec.ofNat 32 before.length + BitVec.ofNat 32 word.length
      · refine Or.inr ⟨?_, before.length + word.length, d, first, stops d rfl, ?_⟩
        · rw [same, here]
          exact Function.update_self _ _ _
        · rw [here]
          bv_omega
      · refine Or.inl (same.trans ?_)
        exact Function.update_of_ne here _ _
    · refine Or.inr ⟨zero, before.length + word.length + 1 + k, c, (later k).trans behind, delimits, ?_⟩
      rw [place]
      change p + BitVec.ofNat 32 before.length + BitVec.ofNat 32 word.length + 1 + BitVec.ofNat 32 k = _
      bv_omega

theorem tokensOf_token {tokens : List (Nat × List Byte)} (separates : ∀ c ∈ before, IsDelimiter delimiters c)
    (nonempty : word ≠ []) (free : ∀ c ∈ word, ¬IsDelimiter delimiters c)
    (stops : ∀ c, rest.head? = some c → IsDelimiter delimiters c)
    (later : TokensOf (IsDelimiter delimiters) rest.tail tokens) :
    TokensOf (IsDelimiter delimiters) (before ++ (word ++ rest))
      ((before.length, word) :: shift ((before ++ (word ++ rest)).length - rest.tail.length) tokens) := by
  have whole : TokensOf (IsDelimiter delimiters) (word ++ rest)
      ((0, word) :: shift ((word ++ rest).length - rest.tail.length) tokens) := by
    cases rest with
    | nil =>
      have none : tokens = [] := List.eq_nil_iff_forall_not_mem.mpr
        (fun token member => isToken_nil ((later.listed token.1 token.2).mp member))
      rw [none, List.append_nil]
      exact TokensOf.word nonempty free
    | cons d rest =>
      have length : (word ++ d :: rest).length - rest.length = word.length + 1 := by
        rw [List.length_append, List.length_cons]
        omega
      rw [List.tail_cons, length]
      exact TokensOf.word_append nonempty free (stops d rfl) later
  have shifted := whole.skips separates
  have length : (before ++ (word ++ rest)).length - rest.tail.length =
      before.length + ((word ++ rest).length - rest.tail.length) := by
    have short : rest.tail.length ≤ rest.length := by
      rw [List.length_tail]
      omega
    rw [List.length_append, List.length_append]
    omega
  rw [length, ← shift_shift]
  exact shifted

/-- The calls from a string on return its tokens. -/
theorem callsUntilNull_run (delimiters : List Byte) (calls : Nat) (text : List Byte) (p str : Addr) (state : Tokenizer)
    (held : HoldsString state.bytes p text) (placed : Placed p text)
    (start : (if str ≠ 0 ∧ state.sp = 0 then str else state.sp) = p)
    (inside : ∀ j ≤ text.length, within (p + BitVec.ofNat 32 j)) (enough : text.length < fuel)
    (often : text.length < calls) :
    ∃ list last tokens, callsUntilNull (fun str => strtokIn within fuel str delimiters) calls str state =
      some (list, last) ∧ last.sp = 0 ∧ TokensOf (IsDelimiter delimiters) text tokens ∧
      List.Forall₂ (Yields p last) tokens list ∧ CutAt delimiters p text state.bytes last.bytes := by
  induction calls generalizing text p str state with
  | zero => exact absurd often (Nat.not_lt_zero _)
  | succ calls ih =>
    obtain ⟨before, more, rfl, separates, begins⟩ := splits_at (fun c => ¬IsDelimiter delimiters c) text
    obtain ⟨word, rest, rfl, free, stops⟩ := splits_at (fun c => IsDelimiter delimiters c) more
    have separates : ∀ c ∈ before, IsDelimiter delimiters c := fun c member => not_not.mp (separates c member)
    by_cases nonempty : word = []
    · -- what the scan stopped at is no delimiter and begins no word
      have ended : rest = [] := by
        cases rest with
        | nil => rfl
        | cons c rest => exact absurd (stops c rfl) (begins c (by rw [nonempty]; rfl))
      rw [nonempty, ended, List.append_nil, List.append_nil] at held placed inside enough ⊢
      have call := strtokIn_null held placed start separates inside enough
      refine ⟨[], { state with sp := 0 }, [], ?_, rfl, ?_, List.Forall₂.nil, fun address => Or.inl rfl⟩
      · rw [callsUntilNull, call]
        exact if_pos rfl
      · have none := TokensOf.nil.skips separates
        rwa [List.append_nil] at none
    · have call := strtokIn_token held placed start separates nonempty free stops inside enough
      have top := placed.top
      have somewhere := List.length_pos_iff.mpr nonempty
      have shorter : rest.tail.length ≤ rest.length := by
        rw [List.length_tail]
        omega
      have lengths : (before ++ (word ++ rest)).length = before.length + (word.length + rest.length) := by
        rw [List.length_append, List.length_append]
      have place := tokenEnd_place state.bytes p before word rest
      have token := held.drop
      have tokenPlaced : Placed (p + BitVec.ofNat 32 before.length) (word ++ rest) := by
        refine ⟨placed.nonnull_at (by omega), ?_⟩
        rw [List.length_append]
        bv_omega
      have left := tokenEnd_left token tokenPlaced
      have leftPlaced : Placed (tokenEnd state.bytes
          (p + BitVec.ofNat 32 before.length + BitVec.ofNat 32 word.length) rest).sp rest.tail := by
        rw [place]
        refine ⟨placed.nonnull_at (by omega), ?_⟩
        bv_omega
      have insideLeft : ∀ j ≤ rest.tail.length, within ((tokenEnd state.bytes
          (p + BitVec.ofNat 32 before.length + BitVec.ofNat 32 word.length) rest).sp + BitVec.ofNat 32 j) := by
        intro j bound
        rw [place, BitVec.add_assoc, ← BitVec.ofNat_add]
        exact inside _ (by omega)
      obtain ⟨list, last, tokens, ran, idle, tokensOf, yields, cut⟩ := ih rest.tail _ 0
        (tokenEnd state.bytes (p + BitVec.ofNat 32 before.length + BitVec.ofNat 32 word.length) rest) left leftPlaced
        (if_neg (fun both => both.1 rfl)) insideLeft (by omega) (by omega)
      have first : Yields p last (before.length, word) (p + BitVec.ofNat 32 before.length,
          tokenEnd state.bytes (p + BitVec.ofNat 32 before.length + BitVec.ofNat 32 word.length) rest) :=
        ⟨rfl, tokenEnd_word token (by omega), tokenEnd_kept token tokenPlaced cut⟩
      have others : List.Forall₂ (Yields p last)
          (shift ((before ++ (word ++ rest)).length - rest.tail.length) tokens) list := by
        refine List.forall₂_map_left_iff.mpr (yields.imp (fun known call yield => ?_))
        refine ⟨?_, yield.2⟩
        rw [yield.1, place]
        dsimp only
        bv_omega
      refine ⟨_, last, _, ?_, idle, tokensOf_token separates nonempty free stops tokensOf,
        List.Forall₂.cons first others, cutAt_token stops cut⟩
      rw [callsUntilNull, call]
      dsimp only
      rw [if_neg (placed.nonnull_at (by omega)), ran, Option.map_some]

end Run

/-- On a string and then on null, `strtok` returns the string's tokens in order, each ended in place, until it returns
null with its pointer cleared. It touches no place that is not the string's, and changes delimiters only. -/
theorem strtok_tokens {bytes : Bytes} {str : Addr} {text : List Byte} (delimiters : List Byte)
    (held : HoldsString bytes str text) (placed : Placed str text) {fuel calls : Nat} (enough : text.length < fuel)
    (often : text.length < calls) :
    ∃ list last tokens,
      callsUntilNull (fun given => strtok fuel given delimiters) calls str ⟨bytes, 0⟩ = some (list, last) ∧
      callsUntilNull (fun given => strtokIn (InString str text) fuel given delimiters) calls str ⟨bytes, 0⟩ =
        some (list, last) ∧
      last.sp = 0 ∧ TokensOf (IsDelimiter delimiters) text tokens ∧ List.Forall₂ (Yields str last) tokens list ∧
      CutAt delimiters str text bytes last.bytes := by
  have top := placed.top
  have inside : ∀ j ≤ text.length, InString str text (str + BitVec.ofNat 32 j) := by
    intro j bound
    unfold InString
    bv_omega
  obtain ⟨list, last, tokens, ran, idle, tokensOf, yields, cut⟩ :=
    callsUntilNull_run delimiters calls text str str ⟨bytes, 0⟩ held placed (if_pos ⟨placed.nonnull, rfl⟩) inside
      enough often
  exact ⟨list, last, tokens, callsUntilNull_mono (fun _ _ _ => strtokIn_some) ran, ran, idle, tokensOf, yields, cut⟩

/-- `"a b"` and the space -/
theorem strtok_tokens_letters : ∃ list last tokens,
    callsUntilNull (fun given => strtok 4 given [space]) 4 0x1000
      ⟨storeBytes (fun _ => 0) 0x1000 [0x61, space, 0x62], 0⟩ = some (list, last) ∧
    last.sp = 0 ∧ TokensOf (IsDelimiter [space]) [0x61, space, 0x62] tokens ∧
      List.Forall₂ (Yields 0x1000 last) tokens list := by
  have held : HoldsString (storeBytes (fun _ => 0) 0x1000 [0x61, space, 0x62]) 0x1000 [0x61, space, 0x62] :=
    ⟨by decide, by decide⟩
  obtain ⟨list, last, tokens, ran, _, idle, tokensOf, yields, _⟩ :=
    strtok_tokens [space] held ⟨by decide, by decide⟩ (by decide : _ < 4) (by decide : _ < 4)
  exact ⟨list, last, tokens, ran, idle, tokensOf, yields⟩

end PeachOS.Stdlib
