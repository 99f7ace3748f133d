import PeachOS.AllocationRuns
import PeachOS.Strings

/-! `process_inject_arguments` on the linked list that it is given: the list is counted and then copied, with
an allocation for each string in between. The structures of the list are bytes of `memory`. -/

namespace PeachOS
open Program ByteMemory

/-- The size of the `argument` array of a `struct command_argument`; `next` follows it. -/
abbrev sizeofArgument : Nat := 512

abbrev sizeofCommandArgument : Nat := sizeofArgument + 4

def argumentNext (bytes : Bytes) (argument : Addr) : Addr := load32 bytes (argument + BitVec.ofNat 32 sizeofArgument)

/-- The loop with `i` arguments counted; none when it does not end in `fuel` rounds. -/
def countArgumentsLoop (bytes : Bytes) : (fuel i : Nat) → (current : Addr) → Option Nat
  | 0, i, current => if current = 0 then some i else none
  | fuel + 1, i, current =>
      if current = 0 then some i else countArgumentsLoop bytes fuel (i + 1) (argumentNext bytes current)

def processCountCommandArguments (bytes : Bytes) (fuel : Nat) (rootArgument : Addr) : Option Nat :=
  countArgumentsLoop bytes fuel 0 rootArgument

/-- The loop of `strncpy` at character `i`, with `remaining` before the last one, which is the terminator's. -/
def strncpyLoop (dest src : Addr) : (remaining i : Nat) → Bytes → Bytes
  | 0, i, bytes => Function.update bytes (dest + BitVec.ofNat 32 i) 0
  | remaining + 1, i, bytes =>
      if bytes (src + BitVec.ofNat 32 i) = 0 then Function.update bytes (dest + BitVec.ofNat 32 i) 0
      else strncpyLoop dest src remaining (i + 1)
        (Function.update bytes (dest + BitVec.ofNat 32 i) (bytes (src + BitVec.ofNat 32 i)))

/-- `strncpy` from one place of memory to another. -/
def strncpyAt (bytes : Bytes) (dest src : Addr) (count : Nat) : Bytes := strncpyLoop dest src (count - 1) 0 bytes

/-- The loop of `process_inject_arguments` from argument `i` on; none when it does not end in `fuel` rounds. -/
def injectArgumentsLoop (process argv : Addr) : (fuel i : Nat) → (current : Addr) → KernelProg (Option Int)
  | 0, _, current => if current = 0 then pure (some 0) else pure none
  | fuel + 1, i, current =>
      if current = 0 then pure (some 0)
      else do
        let argumentStr ← processMalloc process (BitVec.ofNat 32 sizeofArgument)
        if argumentStr = 0 then pure (some (-ENOMEM))
        else
          update (fun kernel => kernel.setBytes (strncpyAt kernel.memory.bytes argumentStr current sizeofArgument))
          update (fun kernel => kernel.setBytes
            (store32 kernel.memory.bytes (argv + BitVec.ofNat 32 (4 * i)) argumentStr))
          let next ← read (fun kernel => argumentNext kernel.memory.bytes current)
          injectArgumentsLoop process argv fuel (i + 1) next

/-- With `fuel` rounds for each of the two loops. -/
def processInjectArguments (fuel : Nat) (process rootArgument : Addr) : KernelProg (Option Int) := do
  let bytes ← read (fun kernel => kernel.memory.bytes)
  match processCountCommandArguments bytes fuel rootArgument with
  | none => pure none
  | some count =>
      let argc := BitVec.ofNat 32 count
      if argc = 0 then pure (some (- EIO))
      else
        let argv ← processMalloc process (4 * argc)
        if argv = 0 then pure (some (-ENOMEM))
        else
          let res ← injectArgumentsLoop process argv fuel 0 rootArgument
          if res = some 0 then do
            update (fun kernel => kernel.setProcess process (fun record => { record with arguments := ⟨argc, argv⟩ }))
            pure res
          else pure res

/-- A string of the kernel: its characters, and the terminator after them. -/
def HoldsString (bytes : Bytes) (address : Addr) (text : List Byte) : Prop :=
  (∀ c ∈ text, c ≠ 0) ∧ loadBytes bytes address (text.length + 1) = text ++ [0]

/-- A null-terminated list of command arguments with these strings, whose structures are at `live` addresses. -/
def ArgumentList (bytes : Bytes) (live : Addr → Prop) : Addr → List (List Byte) → Prop
  | current, [] => current = 0
  | current, argument :: rest =>
      current ≠ 0 ∧ (∀ j < sizeofCommandArgument, live (current + BitVec.ofNat 32 j)) ∧
        argument.length < sizeofArgument ∧ HoldsString bytes current argument ∧
          ArgumentList bytes live (argumentNext bytes current) rest

def argumentAt (bytes : Bytes) (root : Addr) : Nat → Addr
  | 0 => root
  | k + 1 => argumentNext bytes (argumentAt bytes root k)

/-- Each structure that the list comes to is at `live` addresses and holds a string. -/
def ArgumentsHeld (bytes : Bytes) (live : Addr → Prop) (root : Addr) : Prop :=
  ∀ k, (∀ j ≤ k, argumentAt bytes root j ≠ 0) →
    (∀ b < sizeofCommandArgument, live (argumentAt bytes root k + BitVec.ofNat 32 b)) ∧
      ∃ text : List Byte, text.length < sizeofArgument ∧ HoldsString bytes (argumentAt bytes root k) text

/-- Each string that is left has a block served for it, when the loop comes to it. -/
def StringsServed {σ : Type} (malloc : Prog σ Stop Addr) (store : Addr → Nat → List Byte → σ → σ) :
    (i : Nat) → List (List Byte) → σ → Prop
  | _, [], _ => True
  | i, text :: rest, state => ∃ ptr middle, malloc state = (.ok ptr, middle) ∧ ptr ≠ 0 ∧
      StringsServed malloc store (i + 1) rest (store ptr i text middle)

theorem drop_cons {arguments rest : List (List Byte)} {text : List Byte} {i : Nat}
    (left : arguments.drop i = text :: rest) :
    i < arguments.length ∧ arguments.getD i [] = text ∧ arguments.drop (i + 1) = rest := by
  have bound : i < arguments.length := by
    by_contra past
    rw [List.drop_of_length_le (not_lt.mp past)] at left
    cases left
  rw [List.drop_eq_getElem_cons bound, List.cons.injEq] at left
  refine ⟨bound, ?_, left.2⟩
  rw [List.getD_eq_getElem?_getD, List.getElem?_eq_getElem bound, left.1, Option.getD_some]

section Lists
variable {bytes other : Bytes} {live alive : Addr → Prop} {current : Addr} {arguments : List (List Byte)}
  {argument text : List Byte}

theorem HoldsString.congr {address : Addr} (held : HoldsString bytes address text)
    (same : ∀ j ≤ text.length, other (address + BitVec.ofNat 32 j) = bytes (address + BitVec.ofNat 32 j)) :
    HoldsString other address text :=
  ⟨held.1, (loadBytes_congr (fun j bound => same j (Nat.le_of_lt_succ bound))).trans held.2⟩

theorem argumentNext_congr
    (same : ∀ j < sizeofCommandArgument, other (current + BitVec.ofNat 32 j) = bytes (current + BitVec.ofNat 32 j)) :
    argumentNext other current = argumentNext bytes current := by
  have byte : ∀ j < 4, other (current + BitVec.ofNat 32 sizeofArgument + BitVec.ofNat 32 j) =
      bytes (current + BitVec.ofNat 32 sizeofArgument + BitVec.ofNat 32 j) := by
    intro j bound
    rw [BitVec.add_assoc, ← BitVec.ofNat_add]
    exact same _ (by unfold sizeofCommandArgument; omega)
  exact load32_congr byte

theorem ArgumentList.congr (listed : ArgumentList bytes live current arguments)
    (same : ∀ address, live address → other address = bytes address)
    (still : ∀ address, live address → alive address) :
    ArgumentList other alive current arguments := by
  induction arguments generalizing current with
  | nil => exact listed
  | cons argument rest ih =>
    obtain ⟨nonnull, lives, short, held, tail⟩ := listed
    refine ⟨nonnull, fun j bound => still _ (lives j bound), short, held.congr ?_, ?_⟩
    · exact fun j bound => same _ (lives j (by unfold sizeofCommandArgument; omega))
    · rw [argumentNext_congr (fun j bound => same _ (lives j bound))]
      exact ih tail

theorem ArgumentList.texts (listed : ArgumentList bytes live current arguments) :
    ∀ argument ∈ arguments, argument.length < sizeofArgument ∧ ∀ c ∈ argument, c ≠ 0 := by
  induction arguments generalizing current with
  | nil => exact fun argument member => absurd member List.not_mem_nil
  | cons first rest ih =>
    obtain ⟨_, _, short, held, tail⟩ := listed
    exact List.forall_mem_cons.mpr ⟨⟨short, held.1⟩, ih tail⟩

theorem text_getD
    (texts : ∀ argument ∈ arguments, argument.length < sizeofArgument ∧ ∀ c ∈ argument, c ≠ 0) (k : Nat) :
    (arguments.getD k []).length < sizeofArgument ∧ ∀ c ∈ arguments.getD k [], c ≠ 0 := by
  rw [List.getD_eq_getElem?_getD]
  cases found : arguments[k]? with
  | none => exact ⟨by decide, fun c none => absurd none List.not_mem_nil⟩
  | some other => exact texts _ (List.mem_of_getElem? found)

theorem ArgumentList.counted (listed : ArgumentList bytes live current arguments) (fuel i : Nat)
    (enough : arguments.length ≤ fuel) :
    countArgumentsLoop bytes fuel i current = some (i + arguments.length) := by
  induction arguments generalizing current fuel i with
  | nil => cases fuel <;> exact if_pos listed
  | cons argument rest ih =>
    obtain ⟨nonnull, _, _, _, tail⟩ := listed
    cases fuel with
    | zero => exact absurd enough (Nat.not_succ_le_zero _)
    | succ fuel =>
      rw [countArgumentsLoop, if_neg nonnull, ih tail fuel (i + 1) (Nat.le_of_succ_le_succ enough),
        List.length_cons, Nat.add_right_comm, Nat.add_assoc]

theorem ArgumentList.counted_short (listed : ArgumentList bytes live current arguments) (fuel i : Nat)
    (few : fuel < arguments.length) : countArgumentsLoop bytes fuel i current = none := by
  induction arguments generalizing current fuel i with
  | nil => exact absurd few (Nat.not_lt_zero _)
  | cons argument rest ih =>
    obtain ⟨nonnull, _, _, _, tail⟩ := listed
    cases fuel with
    | zero => rw [countArgumentsLoop, if_neg nonnull]
    | succ fuel => rw [countArgumentsLoop, if_neg nonnull, ih tail fuel (i + 1) (Nat.lt_of_succ_lt_succ few)]

theorem argumentAt_next (bytes : Bytes) (root : Addr) (k : Nat) :
    argumentAt bytes (argumentNext bytes root) k = argumentAt bytes root (k + 1) := by
  induction k with
  | zero => rfl
  | succ k ih => exact congrArg (argumentNext bytes) ih

theorem ArgumentsHeld.next (held : ArgumentsHeld bytes live current) (nonnull : current ≠ 0) :
    ArgumentsHeld bytes live (argumentNext bytes current) := by
  intro k reached
  rw [argumentAt_next]
  refine held (k + 1) (fun j bound => ?_)
  cases j with
  | zero => exact nonnull
  | succ j =>
    rw [← argumentAt_next]
    exact reached j (Nat.le_of_succ_le_succ bound)

theorem ArgumentsHeld.listed (held : ArgumentsHeld bytes live current) {n : Nat} (ends : argumentAt bytes current n = 0) :
    ∃ arguments, ArgumentList bytes live current arguments := by
  induction n generalizing current with
  | zero => exact ⟨[], ends⟩
  | succ n ih =>
    by_cases null : current = 0
    · exact ⟨[], null⟩
    · rw [← argumentAt_next] at ends
      obtain ⟨rest, tail⟩ := ih (held.next null) ends
      obtain ⟨lives, argument, short, holds⟩ := held 0 (fun j bound => by rwa [Nat.le_zero.mp bound])
      exact ⟨argument :: rest, null, lives, short, holds, tail⟩

theorem ArgumentsHeld.lives (held : ArgumentsHeld bytes alive current)
    (listed : ArgumentList bytes live current arguments) : ArgumentList bytes alive current arguments := by
  induction arguments generalizing current with
  | nil => exact listed
  | cons argument rest ih =>
    obtain ⟨nonnull, _, short, holds, tail⟩ := listed
    have first := held 0 (fun j bound => by rwa [Nat.le_zero.mp bound])
    exact ⟨nonnull, first.1, short, holds, ih (held.next nonnull) tail⟩

theorem ArgumentList.ends (listed : ArgumentList bytes live current arguments) :
    argumentAt bytes current arguments.length = 0 := by
  induction arguments generalizing current with
  | nil => exact listed
  | cons argument rest ih =>
    obtain ⟨_, _, _, _, tail⟩ := listed
    rw [List.length_cons, ← argumentAt_next]
    exact ih tail

theorem counted_endless (endless : ∀ k, argumentAt bytes current k ≠ 0) (fuel i : Nat) :
    countArgumentsLoop bytes fuel i current = none := by
  induction fuel generalizing current i with
  | zero => exact if_neg (endless 0)
  | succ fuel ih =>
    have later : ∀ k, argumentAt bytes (argumentNext bytes current) k ≠ 0 := by
      intro k
      rw [argumentAt_next]
      exact endless (k + 1)
    exact (if_neg (endless 0)).trans (ih later (i + 1))

theorem HoldsString.tail {address : Addr} {c : Byte} (held : HoldsString bytes address (c :: text)) :
    bytes address = c ∧ HoldsString bytes (address + 1) text := by
  obtain ⟨nonzero, loaded⟩ := held
  rw [List.length_cons, loadBytes, List.cons_append, List.cons.injEq] at loaded
  exact ⟨loaded.1, fun d member => nonzero d (List.mem_cons_of_mem _ member), loaded.2⟩

theorem HoldsString.ends {address : Addr} (held : HoldsString bytes address []) : bytes address = 0 :=
  List.head_eq_of_cons_eq held.2

theorem HoldsString.cons {address : Addr} {c : Byte} (first : bytes address = c) (nonzero : c ≠ 0)
    (held : HoldsString bytes (address + 1) text) : HoldsString bytes address (c :: text) := by
  refine ⟨List.forall_mem_cons.mpr ⟨nonzero, held.1⟩, ?_⟩
  rw [List.length_cons, loadBytes, held.2, first, List.cons_append]

/-- The copying loop stops at the terminator or at its limit, if it writes nothing that it is going to read. -/
theorem strncpyLoop_cuts {dest src : Addr} (remaining i : Nat)
    (held : HoldsString bytes (src + BitVec.ofNat 32 i) text)
    (apart : ∀ a b, i ≤ a → a ≤ i + text.length → a ≤ i + remaining → i ≤ b → b ≤ i + text.length →
      src + BitVec.ofNat 32 b ≠ dest + BitVec.ofNat 32 a) :
    strncpyLoop dest src remaining i bytes =
      storeBytes bytes (dest + BitVec.ofNat 32 i) (text.take remaining ++ [0]) := by
  induction text generalizing bytes remaining i with
  | nil =>
    cases remaining with
    | zero => rfl
    | succ remaining => exact if_pos held.ends
  | cons c rest ih =>
    rw [List.length_cons] at apart
    have next : ∀ base : Addr, base + BitVec.ofNat 32 i + 1 = base + BitVec.ofNat 32 (i + 1) := by
      intro base
      bv_omega
    obtain ⟨first, tail⟩ := held.tail
    rw [next] at tail
    cases remaining with
    | zero => rfl
    | succ remaining =>
      have nonzero : ¬bytes (src + BitVec.ofNat 32 i) = 0 := by
        rw [first]
        exact held.1 c List.mem_cons_self
      have still : HoldsString (Function.update bytes (dest + BitVec.ofNat 32 i) c)
          (src + BitVec.ofNat 32 (i + 1)) rest := by
        refine tail.congr (fun j bound => Function.update_of_ne ?_ _ _)
        rw [BitVec.add_assoc, ← BitVec.ofNat_add]
        exact apart _ _ (by omega) (by omega) (by omega) (by omega) (by omega)
      rw [strncpyLoop, if_neg nonzero, first, ih remaining (i + 1) still
        (fun a b aLow aHigh aRoom bLow bHigh =>
          apart a b (by omega) (by omega) (by omega) (by omega) (by omega)),
        List.take_succ_cons, List.cons_append, storeBytes, next]

theorem strncpyAt_cuts {dest src : Addr} (count : Nat) (held : HoldsString bytes src text)
    (apart : ∀ a ≤ text.length, a ≤ count - 1 → ∀ b ≤ text.length,
      src + BitVec.ofNat 32 b ≠ dest + BitVec.ofNat 32 a) :
    strncpyAt bytes dest src count = storeBytes bytes dest (text.take (count - 1) ++ [0]) := by
  have start : HoldsString bytes (src + BitVec.ofNat 32 0) text := by
    rw [BitVec.add_zero]
    exact held
  have copied : strncpyLoop dest src (count - 1) 0 bytes = _ := strncpyLoop_cuts (count - 1) 0 start
    (fun a b _ aHigh aRoom _ bHigh => apart a (by omega) (by omega) b (by omega))
  rw [BitVec.add_zero] at copied
  exact copied

theorem strncpyAt_stores {dest src : Addr} {count : Nat} (held : HoldsString bytes src text) (short : text.length < count)
    (apart : ∀ a ≤ text.length, ∀ b ≤ text.length, src + BitVec.ofNat 32 b ≠ dest + BitVec.ofNat 32 a) :
    strncpyAt bytes dest src count = storeBytes bytes dest (text ++ [0]) := by
  rw [strncpyAt_cuts count held (fun a bound _ => apart a bound), List.take_of_length_le (by omega)]

end Lists

end PeachOS
