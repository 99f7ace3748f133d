import PeachOS.Tokenizer

/-! `peachos_parse_command` of the user's `peachos.c`, with what `peachos_malloc` serves to it as a parameter. The
user's `strncpy` is word by word that of the kernel. -/

namespace PeachOS.Stdlib
open ByteMemory

/-- What a call of `peachos_malloc` returns, and what it does to the memory of the program. -/
structure Allocation where
  ptr : Addr
  effect : Bytes → Bytes

/-- A call, with the place of its array on the stack and what it is served, one after the other. -/
structure ParseCall where
  command : Addr
  max : Word
  scommand : Addr
  malloc : Nat → Allocation

/-- A structure gets the token as its argument, and no `next`. -/
def storeArgument (bytes : Bytes) (node token : Addr) : Bytes :=
  store32 (strncpyAt bytes node token sizeofArgument) (node + BitVec.ofNat 32 sizeofArgument) 0

/-- The loop, with `k` structures allocated; none when it does not end in `fuel` rounds, or a call of `strtok` does
not in `tokens` rounds. -/
def parseLoop (tokens : Nat) (malloc : Nat → Allocation) :
    (fuel k : Nat) → (current token : Addr) → Tokenizer → Option Tokenizer
  | 0, _, _, token, state => if token = 0 then some state else none
  | fuel + 1, k, current, token, state =>
      if token = 0 then some state
      else
        let newCommand := (malloc k).ptr
        let bytes := (malloc k).effect state.bytes
        if newCommand = 0 then some { state with bytes := bytes }
        else
          let stored := storeArgument bytes newCommand token
          let linked := store32 stored (current + BitVec.ofNat 32 sizeofArgument) newCommand
          match strtok tokens 0 [space] { state with bytes := linked } with
          | none => none
          | some (token, after) => parseLoop tokens malloc fuel (k + 1) newCommand token after

def peachosParseCommand (fuel : Nat) (call : ParseCall) (state : Tokenizer) : Option (Addr × Tokenizer) :=
  -- the size is unsigned, and so is the comparison
  if sizeofScommand ≤ call.max.toNat then some (0, state)
  else
    let copied := strncpyAt state.bytes call.scommand call.command sizeofScommand
    match strtok fuel call.scommand [space] { state with bytes := copied } with
    | none => none
    | some (token, state) =>
        if token = 0 then some (0, state)
        else
          let rootCommand := (call.malloc 0).ptr
          let bytes := (call.malloc 0).effect state.bytes
          if rootCommand = 0 then some (0, { state with bytes := bytes })
          else
            match strtok fuel 0 [space] { state with bytes := storeArgument bytes rootCommand token } with
            | none => none
            | some (token, after) =>
                (parseLoop fuel call.malloc fuel 1 rootCommand token after).map (fun last => (rootCommand, last))

/-- The arguments that a command stands for: its words, each cut to what a structure holds. -/
def commandArguments (text : List Byte) : List (List Byte) :=
  (words (text.take (sizeofScommand - 1))).map (List.take (sizeofArgument - 1))

/-- The arguments that have structures, when allocation `k` is the next: those before the first that fails. -/
def served (malloc : Nat → Allocation) : (k : Nat) → List (List Byte) → List (List Byte)
  | _, [] => []
  | k, argument :: later => if (malloc k).ptr = 0 then [] else argument :: served malloc (k + 1) later

def ParseCall.Array (call : ParseCall) (address : Addr) : Prop := (address - call.scommand).toNat < sizeofScommand

def ParseCall.Block (call : ParseCall) (k : Nat) (address : Addr) : Prop :=
  ∃ j < sizeofCommandArgument, address = (call.malloc k).ptr + BitVec.ofNat 32 j

/-- The structures that are served, when `n` are asked for, are apart from the array and from each other, and no
allocation changes those bytes. -/
structure ParseCall.Serves (call : ParseCall) (n : Nat) : Prop where
  apart : ∀ k < n, (∀ i ≤ k, (call.malloc i).ptr ≠ 0) → ∀ address, call.Block k address →
    ¬call.Array address ∧ ∀ i < k, ¬call.Block i address
  keeps : ∀ k < n, (∀ i < k, (call.malloc i).ptr ≠ 0) → ∀ bytes address,
    (call.Array address ∨ ∃ i < k, call.Block i address) → (call.malloc k).effect bytes address = bytes address

/-- What a call is made with. -/
structure ParseCall.Meets (call : ParseCall) (bytes : Bytes) (text : List Byte) : Prop where
  held : HoldsString bytes call.command text
  stack : OnStack call.scommand
  apart : ∀ b ≤ text.length, ¬call.Array (call.command + BitVec.ofNat 32 b)
  serves : call.Serves (commandArguments text).length

/-- No allocation that the call comes to fails. -/
def ParseCall.Complete (call : ParseCall) (text : List Byte) : Prop :=
  ∀ k < (commandArguments text).length, (call.malloc k).ptr ≠ 0

section Node
variable {bytes : Bytes} {node token : Addr} {word : List Byte}

theorem storeArgument_other {address : Addr} (held : HoldsString bytes token word)
    (apart : ∀ a < sizeofArgument, ∀ b ≤ word.length, token + BitVec.ofNat 32 b ≠ node + BitVec.ofNat 32 a)
    (other : ∀ j < sizeofCommandArgument, address ≠ node + BitVec.ofNat 32 j) :
    storeArgument bytes node token address = bytes address := by
  unfold storeArgument
  rw [store32_other, strncpyAt_cuts _ held (fun a _ room => apart a (by unfold sizeofArgument at *; omega))]
  · refine storeBytes_outside _ _ _ ?_ ?_
    · rw [List.length_append, List.length_take, List.length_singleton]
      unfold sizeofArgument
      omega
    · by_contra inside
      rw [List.length_append, List.length_take, List.length_singleton] at inside
      refine other (address - node).toNat (by unfold sizeofCommandArgument sizeofArgument at *; omega) ?_
      rw [BitVec.ofNat_toNat, BitVec.setWidth_eq]
      bv_omega
  · intro j bound same
    refine other (sizeofArgument + j) (by unfold sizeofCommandArgument; omega) ?_
    rw [same, BitVec.ofNat_add, BitVec.add_assoc]

theorem storeArgument_next : argumentNext (storeArgument bytes node token) node = 0 := load32_store32 _ _ _

theorem storeArgument_holds (held : HoldsString bytes token word)
    (apart : ∀ a < sizeofArgument, ∀ b ≤ word.length, token + BitVec.ofNat 32 b ≠ node + BitVec.ofNat 32 a) :
    HoldsString (storeArgument bytes node token) node (word.take (sizeofArgument - 1)) := by
  have fits : (word.take (sizeofArgument - 1)).length + 1 ≤ sizeofArgument := by
    rw [List.length_take]
    unfold sizeofArgument
    omega
  have copied : HoldsString (strncpyAt bytes node token sizeofArgument) node (word.take (sizeofArgument - 1)) := by
    rw [strncpyAt_cuts _ held (fun a _ room => apart a (by unfold sizeofArgument at *; omega))]
    refine ⟨fun c member => held.1 c (List.mem_of_mem_take member), ?_⟩
    have loaded := loadBytes_storeBytes bytes node (word.take (sizeofArgument - 1) ++ [0]) (by
      rw [List.length_append, List.length_singleton]
      unfold sizeofArgument at *
      omega)
    rwa [List.length_append] at loaded
  refine copied.congr (fun j bound => store32_other _ _ (fun i small same => ?_))
  unfold sizeofArgument at *
  bv_omega

end Node

section Serve
variable {call : ParseCall} {n k : Nat}

theorem ParseCall.Block.offset {j : Nat} (bound : j < sizeofCommandArgument) :
    call.Block k ((call.malloc k).ptr + BitVec.ofNat 32 j) := ⟨j, bound, rfl⟩

theorem ParseCall.Block.lives (bound : k < n) :
    ∀ j < sizeofCommandArgument, ∃ i < n, call.Block i ((call.malloc k).ptr + BitVec.ofNat 32 j) :=
  fun _ small => ⟨k, bound, ParseCall.Block.offset small⟩

theorem ParseCall.Serves.text_apart (serves : call.Serves n) (bound : k < n)
    (nonnull : ∀ i ≤ k, (call.malloc i).ptr ≠ 0) {bytes : Bytes} {token : Addr} {word : List Byte}
    (inside : TextIn call.scommand bytes token word) :
    ∀ a < sizeofArgument, ∀ b ≤ word.length,
      token + BitVec.ofNat 32 b ≠ (call.malloc k).ptr + BitVec.ofNat 32 a := by
  intro a small b within same
  obtain ⟨place, rfl, fits⟩ := inside.inside
  have block : call.Block k (call.scommand + BitVec.ofNat 32 place + BitVec.ofNat 32 b) := by
    rw [same]
    exact ParseCall.Block.offset (by unfold sizeofCommandArgument; omega)
  refine (serves.apart k bound nonnull _ block).1 ?_
  unfold ParseCall.Array sizeofScommand at *
  bv_omega

theorem ParseCall.Serves.stores (serves : call.Serves n) (bound : k < n)
    (nonnull : ∀ i ≤ k, (call.malloc i).ptr ≠ 0) {bytes : Bytes} {token : Addr} {word : List Byte}
    (inside : TextIn call.scommand bytes token word) :
    HoldsString (storeArgument bytes (call.malloc k).ptr token) (call.malloc k).ptr (word.take (sizeofArgument - 1)) ∧
      ∀ address, (call.Array address ∨ ∃ i < k, call.Block i address) →
        storeArgument bytes (call.malloc k).ptr token address = bytes address := by
  have apart := serves.text_apart bound nonnull inside
  refine ⟨storeArgument_holds inside.held apart, fun address place => ?_⟩
  refine storeArgument_other inside.held apart (fun j small same => ?_)
  have block : call.Block k address := ⟨j, small, same⟩
  obtain ⟨outside, others⟩ := serves.apart k bound nonnull address block
  exact place.elim outside (fun ⟨i, earlier, other⟩ => others i earlier other)

def ParseCall.Link (call : ParseCall) (k : Nat) (address : Addr) : Prop :=
  ∃ j < 4, address = (call.malloc k).ptr + BitVec.ofNat 32 sizeofArgument + BitVec.ofNat 32 j

theorem ParseCall.Link.block {address : Addr} (link : call.Link k address) : call.Block k address := by
  obtain ⟨j, bound, rfl⟩ := link
  exact ⟨sizeofArgument + j, by unfold sizeofCommandArgument; omega, by rw [BitVec.ofNat_add, BitVec.add_assoc]⟩

theorem ParseCall.not_link {j : Nat} (bound : j < sizeofArgument) :
    ¬call.Link k ((call.malloc k).ptr + BitVec.ofNat 32 j) := by
  rintro ⟨i, small, same⟩
  unfold sizeofArgument at *
  bv_omega

theorem link_other {bytes : Bytes} {next address : Addr} (other : ¬call.Link k address) :
    store32 bytes ((call.malloc k).ptr + BitVec.ofNat 32 sizeofArgument) next address = bytes address :=
  store32_other _ _ (fun i bound same => other ⟨i, bound, same⟩)

/-- The memory when structure `k + 1` is linked to structure `k`. -/
def ParseCall.linked (call : ParseCall) (k : Nat) (token : Addr) (bytes : Bytes) : Bytes :=
  store32 (storeArgument ((call.malloc (k + 1)).effect bytes) (call.malloc (k + 1)).ptr token)
    ((call.malloc k).ptr + BitVec.ofNat 32 sizeofArgument) (call.malloc (k + 1)).ptr

/-- The new structure holds its argument and no link, the last one links to it, and the array and the structures
are otherwise as they were. -/
theorem ParseCall.Serves.links (serves : call.Serves n) (bound : k + 1 < n)
    (nonnull : ∀ i ≤ k + 1, (call.malloc i).ptr ≠ 0) {bytes : Bytes} {token : Addr} {word : List Byte}
    (inside : TextIn call.scommand bytes token word) :
    HoldsString (call.linked k token bytes) (call.malloc (k + 1)).ptr (word.take (sizeofArgument - 1)) ∧
      argumentNext (call.linked k token bytes) (call.malloc (k + 1)).ptr = 0 ∧
      argumentNext (call.linked k token bytes) (call.malloc k).ptr = (call.malloc (k + 1)).ptr ∧
      ∀ address, (call.Array address ∨ ∃ i ≤ k, call.Block i address) → ¬call.Link k address →
        call.linked k token bytes address = bytes address := by
  have before : ∀ i < k + 1, (call.malloc i).ptr ≠ 0 := fun i less => nonnull i (Nat.le_of_lt less)
  have keeps := serves.keeps (k + 1) bound before bytes
  have arrives : TextIn call.scommand ((call.malloc (k + 1)).effect bytes) token word :=
    inside.congr (fun address place => keeps address (Or.inl place))
  obtain ⟨holds, kept⟩ := serves.stores bound nonnull arrives
  have apart : ∀ j < sizeofCommandArgument, ¬call.Link k ((call.malloc (k + 1)).ptr + BitVec.ofNat 32 j) :=
    fun j small link => (serves.apart (k + 1) bound nonnull _ (ParseCall.Block.offset small)).2 k (Nat.lt_succ_self k)
      link.block
  refine ⟨holds.congr (fun j small => link_other (apart j ?_)), ?_, load32_store32 _ _ _, ?_⟩
  · rw [List.length_take] at small
    unfold sizeofCommandArgument sizeofArgument at *
    omega
  · exact (argumentNext_congr (fun j small => link_other (apart j small))).trans storeArgument_next
  · intro address place other
    have places : call.Array address ∨ ∃ i < k + 1, call.Block i address :=
      place.imp_right (fun ⟨i, small, block⟩ => ⟨i, Nat.lt_succ_of_le small, block⟩)
    exact (link_other other).trans ((kept address places).trans (keeps address places))

/-- A structure whose argument is `word`, cut to what it holds, and that is not linked. -/
def ParseCall.Holds (call : ParseCall) (k : Nat) (bytes : Bytes) (word : List Byte) : Prop :=
  HoldsString bytes (call.malloc k).ptr (word.take (sizeofArgument - 1)) ∧ argumentNext bytes (call.malloc k).ptr = 0

theorem cut_fits (word : List Byte) : (word.take (sizeofArgument - 1)).length < sizeofArgument := by
  rw [List.length_take]
  unfold sizeofArgument
  omega

theorem ParseCall.Holds.congr {bytes other : Bytes} {word : List Byte} (holds : call.Holds k bytes word)
    (same : ∀ address, call.Block k address → other address = bytes address) : call.Holds k other word := by
  have fits := cut_fits word
  refine ⟨holds.1.congr (fun j small => same _ (ParseCall.Block.offset ?_)), ?_⟩
  · unfold sizeofCommandArgument
    omega
  · exact (argumentNext_congr (fun j small => same _ (ParseCall.Block.offset small))).trans holds.2

theorem ParseCall.Serves.tokenizes (serves : call.Serves n) (stack : OnStack call.scommand) (bound : k < n)
    (nonnull : ∀ i ≤ k, (call.malloc i).ptr ≠ 0) {tokens : Nat} (enough : sizeofScommand ≤ tokens) (state : Tokenizer)
    {left : List Byte} (inside : TextIn call.scommand state.bytes state.sp left) :
    ∃ token after, strtok tokens 0 [space] state = some (token, after) ∧
      NextToken call.scommand token after (words left) ∧
      ∀ i ≤ k, ∀ address, call.Block i address → after.bytes address = state.bytes address := by
  obtain ⟨token, after, tokenized, follows, frame⟩ :=
    inside.strtok stack enough 0 state rfl (if_neg (fun both => both.1 rfl))
  refine ⟨token, after, tokenized, follows, fun i small address block => frame address (Nat.le_of_not_lt ?_)⟩
  exact (serves.apart i (by omega) (fun j less => nonnull j (by omega)) address block).1

/-- The loop links a structure for each word to the last one, up to the first allocation that fails. -/
theorem ParseCall.Serves.loop (serves : call.Serves n) (stack : OnStack call.scommand) {tokens : Nat}
    (enough : sizeofScommand ≤ tokens) {later : List (List Byte)} {fuel : Nat} (rounds : later.length ≤ fuel)
    (count : n = k + 1 + later.length) (nonnull : ∀ i ≤ k, (call.malloc i).ptr ≠ 0) {token : Addr} {state : Tokenizer}
    (next : NextToken call.scommand token state later) {word : List Byte} (holds : call.Holds k state.bytes word) :
    ∃ after, parseLoop tokens call.malloc fuel (k + 1) (call.malloc k).ptr token state = some after ∧
      ArgumentList after.bytes (fun address => ∃ i < n, call.Block i address) (call.malloc k).ptr
        (word.take (sizeofArgument - 1) :: served call.malloc (k + 1) (later.map (List.take (sizeofArgument - 1)))) ∧
      (after.sp = 0 ↔ ∀ i < n, (call.malloc i).ptr ≠ 0) ∧
      ∀ i < k, ∀ address, call.Block i address → after.bytes address = state.bytes address := by
  induction later generalizing k fuel token state word with
  | nil =>
    obtain ⟨ended, idle⟩ := next
    refine ⟨state, ?_, ⟨nonnull k (Nat.le_refl k), ParseCall.Block.lives (by omega), cut_fits word, holds.1, holds.2⟩,
      ⟨fun _ i bound => nonnull i ?_, fun _ => idle⟩, fun _ _ _ _ => rfl⟩
    · cases fuel <;> exact if_pos ended
    · rw [List.length_nil] at count
      omega
  | cons second later ih =>
    rw [List.length_cons] at rounds count
    obtain ⟨fuel, rfl⟩ : ∃ rest, fuel = rest + 1 := ⟨fuel - 1, by omega⟩
    obtain ⟨pending, busy, inside, left, leftInside, rest⟩ := next
    have bound : k + 1 < n := by omega
    rw [parseLoop, if_neg pending, List.map_cons, served]
    dsimp only
    by_cases failed : (call.malloc (k + 1)).ptr = 0
    · rw [if_pos failed, if_pos failed]
      have keeps : ∀ i ≤ k, ∀ address, call.Block i address →
          (call.malloc (k + 1)).effect state.bytes address = state.bytes address :=
        fun i small address block => serves.keeps (k + 1) bound (fun j less => nonnull j (by omega)) _ _
          (Or.inr ⟨i, by omega, block⟩)
      have still := holds.congr (keeps k (Nat.le_refl k))
      exact ⟨_, rfl, ⟨nonnull k (Nat.le_refl k), ParseCall.Block.lives (by omega), cut_fits word, still.1, still.2⟩,
        ⟨fun idle => absurd idle busy, fun all => absurd failed (all _ bound)⟩,
        fun i small => keeps i (by omega)⟩
    · have through : ∀ i ≤ k + 1, (call.malloc i).ptr ≠ 0 := by
        intro i small
        rcases Nat.lt_or_ge i (k + 1) with less | same
        · exact nonnull i (by omega)
        · rwa [show i = k + 1 by omega]
      rw [if_neg failed, if_neg failed]
      obtain ⟨argument, ends, link, kept⟩ := serves.links bound through inside
      have outside : ∀ i ≤ k + 1, ∀ address, call.Block i address → ¬call.Array address :=
        fun i small address block => (serves.apart i (by omega) (fun j less => through j (by omega)) address block).1
      have leftLinked := leftInside.congr (fun address place => kept address (Or.inl place)
        (fun linked => outside k (Nat.le_succ k) address linked.block place))
      obtain ⟨following, after, tokenized, follows, blocks⟩ := serves.tokenizes stack bound through enough
        { state with bytes := call.linked k token state.bytes } leftLinked
      rw [rest] at follows
      obtain ⟨last, looped, listed, complete, keptLast⟩ := ih (Nat.le_of_succ_le_succ rounds) (by omega) through follows
        (ParseCall.Holds.congr ⟨argument, ends⟩ (blocks (k + 1) (Nat.le_refl _)))
      -- what is in the structures before the new one is not written to any more
      have earlier : ∀ i ≤ k, ∀ address, call.Block i address →
          last.bytes address = call.linked k token state.bytes address :=
        fun i small address block => (keptLast i (Nat.lt_succ_of_le small) address block).trans
          (blocks i (Nat.le_succ_of_le small) address block)
      have linkLast : argumentNext last.bytes (call.malloc k).ptr = (call.malloc (k + 1)).ptr :=
        (argumentNext_congr (fun j small => earlier k (Nat.le_refl k) _ (ParseCall.Block.offset small))).trans link
      have keeps : ∀ i ≤ k, ∀ address, call.Block i address → ¬call.Link k address →
          last.bytes address = state.bytes address :=
        fun i small address block other => (earlier i small address block).trans
          (kept address (Or.inr ⟨i, small, block⟩) other)
      refine ⟨last, ?_, ⟨nonnull k (Nat.le_refl k), ParseCall.Block.lives (by omega), cut_fits word, ?_, ?_⟩, complete, ?_⟩
      · unfold ParseCall.linked at tokenized
        rw [tokenized]
        exact looped
      · refine holds.1.congr (fun j small => ?_)
        have fits := cut_fits word
        exact keeps k (Nat.le_refl k) _ (ParseCall.Block.offset (by unfold sizeofCommandArgument; omega))
          (ParseCall.not_link (by omega))
      · rw [linkLast]
        exact listed
      · intro i small address block
        refine keeps i (Nat.le_of_lt small) address block (fun linked => ?_)
        exact (serves.apart k (by omega) nonnull address linked.block).2 i small block

end Serve

section Call
variable {call : ParseCall} {bytes : Bytes} {text : List Byte}

/-- What a call returns: its arguments as far as they are served, in structures of its own. -/
def ParseCall.Returns (call : ParseCall) (text : List Byte) (root : Addr) (after : Tokenizer) : Prop :=
  ArgumentList after.bytes (fun address => ∃ i < (commandArguments text).length, call.Block i address) root
    (served call.malloc 0 (commandArguments text))

theorem commandArguments_length_le (text : List Byte) : (commandArguments text).length ≤ sizeofScommand := by
  have few := words_length_le (text.take (sizeofScommand - 1))
  unfold commandArguments
  rw [List.length_map]
  rw [List.length_take] at few
  unfold sizeofScommand at *
  omega

theorem ParseCall.Meets.copies (meets : call.Meets bytes text) :
    TextIn call.scommand (strncpyAt bytes call.scommand call.command sizeofScommand) call.scommand
      (text.take (sizeofScommand - 1)) := by
  have fits : (text.take (sizeofScommand - 1)).length < sizeofScommand := by
    rw [List.length_take]
    unfold sizeofScommand
    omega
  refine ⟨?_, 0, (BitVec.add_zero _).symm, by rwa [Nat.zero_add]⟩
  rw [strncpyAt_cuts _ meets.held]
  · refine ⟨fun c member => meets.held.1 c (List.mem_of_mem_take member), ?_⟩
    have loaded := loadBytes_storeBytes bytes call.scommand (text.take (sizeofScommand - 1) ++ [0]) (by
      rw [List.length_append, List.length_singleton]
      unfold sizeofScommand at *
      omega)
    rwa [List.length_append] at loaded
  · intro a _ room b bound same
    refine meets.apart b bound ?_
    unfold ParseCall.Array
    rw [same]
    unfold sizeofScommand at *
    bv_omega

/-- A call that finds the tokenizer ready returns what it is to return. It leaves the tokenizer ready exactly if
no allocation failed. -/
theorem ParseCall.Meets.parses (meets : call.Meets bytes text) (accepted : call.max.toNat < sizeofScommand) {fuel : Nat}
    (enough : sizeofScommand ≤ fuel) :
    ∃ root after, peachosParseCommand fuel call ⟨bytes, 0⟩ = some (root, after) ∧ call.Returns text root after ∧
      (after.sp = 0 ↔ call.Complete text) := by
  have serves := meets.serves
  have rounds := commandArguments_length_le text
  obtain ⟨token, tokenized, first, next, _⟩ := meets.copies.strtok meets.stack enough call.scommand
    ⟨strncpyAt bytes call.scommand call.command sizeofScommand, 0⟩ rfl (if_pos ⟨meets.stack.nonnull, rfl⟩)
  unfold peachosParseCommand ParseCall.Returns ParseCall.Complete
  rw [if_neg (Nat.not_le.mpr accepted)]
  dsimp only
  rw [first]
  dsimp only
  unfold commandArguments at serves rounds ⊢
  generalize words (text.take (sizeofScommand - 1)) = list at next serves rounds ⊢
  rcases list with _ | ⟨word, later⟩
  · rw [if_pos next.1]
    exact ⟨0, tokenized, rfl, rfl, fun _ k bound => absurd bound (Nat.not_lt_zero k), fun _ => next.2⟩
  · obtain ⟨pending, busy, inside, left, leftInside, rest⟩ := next
    rw [List.map_cons, List.length_cons, List.length_map] at serves rounds ⊢
    have bound : 0 < later.length + 1 := Nat.succ_pos _
    rw [if_neg pending, served]
    by_cases failed : (call.malloc 0).ptr = 0
    · rw [if_pos failed, if_pos failed]
      exact ⟨0, _, rfl, rfl, fun idle => absurd idle busy, fun all => absurd failed (all 0 bound)⟩
    · have nonnull : ∀ i ≤ 0, (call.malloc i).ptr ≠ 0 := fun i small => by rwa [Nat.le_zero.mp small]
      have keeps : ∀ address, call.Array address →
          (call.malloc 0).effect tokenized.bytes address = tokenized.bytes address :=
        fun address place => serves.keeps 0 bound (fun i less => absurd less (Nat.not_lt_zero i)) _ _ (Or.inl place)
      obtain ⟨argument, kept⟩ := serves.stores bound nonnull (inside.congr keeps)
      have leftStored := leftInside.congr (fun address place => (kept address (Or.inl place)).trans (keeps address place))
      obtain ⟨following, after, second, follows, blocks⟩ := serves.tokenizes meets.stack bound nonnull enough
        { tokenized with bytes := storeArgument ((call.malloc 0).effect tokenized.bytes) (call.malloc 0).ptr token }
        leftStored
      rw [rest] at follows
      obtain ⟨last, looped, listed, complete, _⟩ := serves.loop meets.stack enough (by omega : later.length ≤ fuel)
        (by omega) nonnull follows (ParseCall.Holds.congr ⟨argument, storeArgument_next⟩ (blocks 0 (Nat.le_refl 0)))
      rw [if_neg failed, if_neg failed, second]
      dsimp only
      rw [looped]
      exact ⟨_, last, rfl, listed, complete⟩

end Call

end PeachOS.Stdlib
