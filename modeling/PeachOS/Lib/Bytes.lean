import Mathlib.Algebra.Group.Int.Defs
import Mathlib.Algebra.Group.Nat.Defs
import Mathlib.Logic.Function.Basic

/-! A 32-bit address space of bytes with little-endian words. What a store or a
fill leaves alone is decided by the addresses alone. -/

namespace ByteMemory

abbrev Bytes := BitVec 32 → BitVec 8

def load16 (bytes : Bytes) (address : BitVec 32) : BitVec 16 :=
  bytes (address + 1#32) ++ bytes address

def load32 (bytes : Bytes) (address : BitVec 32) : BitVec 32 :=
  bytes (address + 3#32) ++ bytes (address + 2#32) ++ bytes (address + 1#32) ++ bytes address

def store32 (bytes : Bytes) (address value : BitVec 32) : Bytes := fun target =>
  if target = address then value.extractLsb' 0 8
  else if target = address + 1#32 then value.extractLsb' 8 8
  else if target = address + 2#32 then value.extractLsb' 16 8
  else if target = address + 3#32 then value.extractLsb' 24 8
  else bytes target

def wordBytes (word : BitVec 32) : List (BitVec 8) :=
  [word.extractLsb' 0 8, word.extractLsb' 8 8, word.extractLsb' 16 8, word.extractLsb' 24 8]

/-- `memset`: the `count` bytes from `address`, wrapping at the end of the address space. -/
def fill (bytes : Bytes) (address : BitVec 32) (count : Nat) (value : BitVec 8) : Bytes :=
  fun target => if (target - address).toNat < count then value else bytes target

/-- The bytes of `content` from `address`, in order. -/
def storeBytes (bytes : Bytes) (address : BitVec 32) : List (BitVec 8) → Bytes
  | [] => bytes
  | value :: rest => storeBytes (Function.update bytes address value) (address + 1) rest

def loadBytes (bytes : Bytes) (address : BitVec 32) : Nat → List (BitVec 8)
  | 0 => []
  | count + 1 => bytes address :: loadBytes bytes (address + 1) count

theorem load32_of_bytes {bytes : Bytes} {address word : BitVec 32}
    (byte : ∀ j < 4, bytes (address + BitVec.ofNat 32 j) = word.extractLsb' (8 * j) 8) : load32 bytes address = word := by
  have first := byte 0 (by omega)
  rw [BitVec.add_zero] at first
  unfold load32
  rw [first, byte 1 (by omega), byte 2 (by omega), byte 3 (by omega),
    BitVec.extractLsb'_append_extractLsb'_eq_extractLsb' (show 8 * 3 = 8 * 2 + 8 from rfl),
    BitVec.extractLsb'_append_extractLsb'_eq_extractLsb' (show 8 * 2 = 8 * 1 + 8 from rfl),
    BitVec.extractLsb'_append_extractLsb'_eq_extractLsb' (show 8 * 1 = 8 * 0 + 8 from rfl)]
  exact BitVec.extractLsb'_eq_self

theorem load16_of_bytes {bytes : Bytes} {address : BitVec 32} {half : BitVec 16}
    (byte : ∀ j < 2, bytes (address + BitVec.ofNat 32 j) = half.extractLsb' (8 * j) 8) : load16 bytes address = half := by
  have first := byte 0 (by omega)
  rw [BitVec.add_zero] at first
  unfold load16
  rw [first, byte 1 (by omega), BitVec.extractLsb'_append_extractLsb'_eq_extractLsb' (show 8 * 1 = 8 * 0 + 8 from rfl)]
  exact BitVec.extractLsb'_eq_self

theorem storeBytes_append (bytes : Bytes) (address : BitVec 32) (first second : List (BitVec 8)) :
    storeBytes bytes address (first ++ second) =
      storeBytes (storeBytes bytes address first) (address + BitVec.ofNat 32 first.length) second := by
  induction first generalizing bytes address with
  | nil => simp [storeBytes]
  | cons value rest ih =>
    rw [List.cons_append, storeBytes, ih, storeBytes, List.length_cons]
    congr 1
    bv_omega

theorem storeBytes_outside (bytes : Bytes) (address : BitVec 32) (content : List (BitVec 8))
    (short : content.length < 2 ^ 32) {target : BitVec 32}
    (outside : content.length ≤ (target - address).toNat) :
    storeBytes bytes address content target = bytes target := by
  induction content generalizing bytes address with
  | nil => rfl
  | cons value rest ih =>
    rw [List.length_cons] at outside short
    have later : rest.length ≤ (target - (address + 1)).toNat := by bv_omega
    have different : target ≠ address := by
      rintro rfl
      simp at outside
    rw [storeBytes, ih _ _ (by omega) later, Function.update_of_ne different]

theorem loadBytes_storeBytes (bytes : Bytes) (address : BitVec 32) (content : List (BitVec 8))
    (short : content.length < 2 ^ 32) :
    loadBytes (storeBytes bytes address content) address content.length = content := by
  induction content generalizing bytes address with
  | nil => rfl
  | cons value rest ih =>
    rw [List.length_cons] at short
    rw [storeBytes, List.length_cons, loadBytes, ih _ _ (by omega),
      storeBytes_outside _ _ _ (by omega), Function.update_self]
    have before : (address - (address + 1)).toNat = 2 ^ 32 - 1 := by bv_omega
    omega

theorem storeBytes_inside (bytes : Bytes) (address : BitVec 32) (content : List (BitVec 8))
    (short : content.length < 2 ^ 32) {i : Nat} (bound : i < content.length) :
    storeBytes bytes address content (address + BitVec.ofNat 32 i) = content.getD i 0 := by
  induction content generalizing bytes address i with
  | nil => exact absurd bound (Nat.not_lt_zero i)
  | cons value rest ih =>
    rw [List.length_cons] at short bound
    rw [storeBytes]
    cases i with
    | zero =>
      have before : rest.length ≤ (address + BitVec.ofNat 32 0 - (address + 1)).toNat := by bv_omega
      rw [storeBytes_outside _ _ _ (by omega) before, BitVec.add_zero, Function.update_self,
        List.getD_cons_zero]
    | succ i =>
      have next : address + BitVec.ofNat 32 (i + 1) = address + 1 + BitVec.ofNat 32 i := by bv_omega
      rw [next, ih _ _ (by omega) (by omega), List.getD_cons_succ]

theorem load16_storeBytes (bytes : Bytes) (address : BitVec 32) (content : List (BitVec 8))
    (short : content.length < 2 ^ 32) {i : Nat} (bound : i + 1 < content.length) :
    load16 (storeBytes bytes address content) (address + BitVec.ofNat 32 i) =
      content.getD (i + 1) 0 ++ content.getD i 0 := by
  have next : address + BitVec.ofNat 32 i + 1#32 = address + BitVec.ofNat 32 (i + 1) := by
    rw [BitVec.add_assoc, ← BitVec.ofNat_add]
  unfold load16
  rw [next, storeBytes_inside bytes address content short bound,
    storeBytes_inside bytes address content short (by omega)]

theorem load32_storeBytes (bytes : Bytes) (address : BitVec 32) (content : List (BitVec 8))
    (short : content.length < 2 ^ 32) {i : Nat} (bound : i + 3 < content.length) :
    load32 (storeBytes bytes address content) (address + BitVec.ofNat 32 i) =
      content.getD (i + 3) 0 ++ content.getD (i + 2) 0 ++ content.getD (i + 1) 0 ++ content.getD i 0 := by
  have next : ∀ j, address + BitVec.ofNat 32 i + BitVec.ofNat 32 j = address + BitVec.ofNat 32 (i + j) := by
    intro j
    rw [BitVec.add_assoc, ← BitVec.ofNat_add]
  unfold load32
  rw [next 3, next 2, next 1, storeBytes_inside bytes address content short bound,
    storeBytes_inside bytes address content short (by omega : i + 2 < content.length),
    storeBytes_inside bytes address content short (by omega : i + 1 < content.length),
    storeBytes_inside bytes address content short (by omega : i < content.length)]

theorem loadBytes_length (bytes : Bytes) (address : BitVec 32) (count : Nat) :
    (loadBytes bytes address count).length = count := by
  induction count generalizing address with
  | zero => rfl
  | succ count ih => rw [loadBytes, List.length_cons, ih]

theorem loadBytes_map (bytes : Bytes) (address : BitVec 32) (count : Nat) :
    loadBytes bytes address count = (List.range count).map (fun i => bytes (address + BitVec.ofNat 32 i)) := by
  induction count generalizing address with
  | zero => rfl
  | succ count ih =>
    rw [loadBytes, ih, List.range_succ_eq_map, List.map_cons, List.map_map, BitVec.add_zero]
    congr 1
    apply List.map_congr_left
    intro i _
    rw [Function.comp_apply]
    congr 1
    bv_omega

theorem loadBytes_add (bytes : Bytes) (address : BitVec 32) (first second : Nat) :
    loadBytes bytes address (first + second) =
      loadBytes bytes address first ++ loadBytes bytes (address + BitVec.ofNat 32 first) second := by
  induction first generalizing address with
  | zero => simp [loadBytes]
  | succ first ih =>
    rw [show first + 1 + second = first + second + 1 by omega, loadBytes, loadBytes, ih,
      List.cons_append]
    congr 3
    bv_omega

theorem loadBytes_congr {before after : Bytes} {address : BitVec 32} {count : Nat}
    (same : ∀ i < count, after (address + BitVec.ofNat 32 i) = before (address + BitVec.ofNat 32 i)) :
    loadBytes after address count = loadBytes before address count := by
  induction count generalizing address with
  | zero => rfl
  | succ count ih =>
    have first := same 0 (by omega)
    rw [BitVec.add_zero] at first
    rw [loadBytes, loadBytes, first, ih]
    intro i bound
    have next := same (i + 1) (by omega)
    rwa [show address + BitVec.ofNat 32 (i + 1) = address + 1 + BitVec.ofNat 32 i by bv_omega] at next

theorem load32_congr {before after : Bytes} {address : BitVec 32}
    (same : ∀ i < 4, after (address + BitVec.ofNat 32 i) = before (address + BitVec.ofNat 32 i)) :
    load32 after address = load32 before address := by
  have first := same 0 (by omega)
  rw [BitVec.add_zero] at first
  simp only [load32]
  rw [first, same 1 (by omega), same 2 (by omega), same 3 (by omega)]

theorem store32_other (bytes : Bytes) {address target : BitVec 32} (value : BitVec 32)
    (other : ∀ i < 4, target ≠ address + BitVec.ofNat 32 i) : store32 bytes address value target = bytes target := by
  have first := other 0 (by omega)
  rw [BitVec.add_zero] at first
  unfold store32
  rw [if_neg first, if_neg (other 1 (by omega)), if_neg (other 2 (by omega)), if_neg (other 3 (by omega))]

theorem loadBytes_replicate {bytes : Bytes} {address : BitVec 32} {count : Nat} {value : BitVec 8}
    (same : ∀ i < count, bytes (address + BitVec.ofNat 32 i) = value) :
    loadBytes bytes address count = List.replicate count value := by
  induction count generalizing address with
  | zero => rfl
  | succ count ih =>
    have first := same 0 (by omega)
    rw [BitVec.add_zero] at first
    rw [loadBytes, List.replicate_succ, first, ih]
    intro i bound
    have next := same (i + 1) (by omega)
    rwa [show address + BitVec.ofNat 32 (i + 1) = address + 1 + BitVec.ofNat 32 i by bv_omega] at next

theorem storeBytes_wordBytes (bytes : Bytes) (address word : BitVec 32) :
    storeBytes bytes address (wordBytes word) = store32 bytes address word := by
  have two : address + 1 + 1 = address + 2#32 := by bv_omega
  have three : address + 2#32 + 1 = address + 3#32 := by bv_omega
  funext target
  simp only [wordBytes, storeBytes, store32, two, three, Function.update_apply]
  -- the four addresses differ, so the order of the tests does not matter
  have one : address + 1#32 ≠ address := by bv_omega
  have second : address + 2#32 ≠ address ∧ address + 2#32 ≠ address + 1#32 := by bv_omega
  have third : address + 3#32 ≠ address ∧ address + 3#32 ≠ address + 1#32 ∧ address + 3#32 ≠ address + 2#32 := by
    bv_omega
  grind

@[simp] theorem load32_store32 (bytes : Bytes) (address value : BitVec 32) :
    load32 (store32 bytes address value) address = value := by
  have one : address + 1#32 ≠ address := by bv_omega
  have two : address + 2#32 ≠ address ∧ address + 2#32 ≠ address + 1#32 := by bv_omega
  have three : address + 3#32 ≠ address ∧ address + 3#32 ≠ address + 1#32 ∧
      address + 3#32 ≠ address + 2#32 := by bv_omega
  simp only [load32, store32, one, two, three, if_true, if_false]
  rw [BitVec.extractLsb'_append_extractLsb'_eq_extractLsb' (show 24 = 16 + 8 from rfl),
    BitVec.extractLsb'_append_extractLsb'_eq_extractLsb' (show 16 = 8 + 8 from rfl),
    BitVec.extractLsb'_append_extractLsb'_eq_extractLsb' (show 8 = 0 + 8 from rfl)]
  exact BitVec.extractLsb'_eq_self

theorem load32_byte (bytes : Bytes) (address : BitVec 32) {j : Nat} (bound : j < 4) :
    (load32 bytes address).extractLsb' (8 * j) 8 = bytes (address + BitVec.ofNat 32 j) := by
  apply BitVec.eq_of_getLsbD_eq
  intro i small
  rw [BitVec.getLsbD_extractLsb']
  change (decide (i < 8) && (bytes (address + 3#32) ++ bytes (address + 2#32) ++ bytes (address + 1#32) ++
    bytes address : BitVec (8 + 8 + 8 + 8)).getLsbD (8 * j + i)) = _
  rw [BitVec.getLsbD_append, BitVec.getLsbD_append, BitVec.getLsbD_append]
  obtain rfl | rfl | rfl | rfl : j = 0 ∨ j = 1 ∨ j = 2 ∨ j = 3 := by omega
  · simp [small]
  · simp [small]
  · simp [small]
    grind
  · simp [small]
    grind

theorem store32_back {before after : Bytes} {address target : BitVec 32}
    (same : (∀ i < 4, target ≠ address + BitVec.ofNat 32 i) → after target = before target) :
    store32 after address (load32 before address) target = before target := by
  by_cases within : ∃ i < 4, target = address + BitVec.ofNat 32 i
  · have first := load32_byte before address (j := 0) (by omega)
    rw [BitVec.add_zero] at first
    obtain ⟨i, bound, rfl⟩ := within
    unfold store32
    obtain rfl | rfl | rfl | rfl : i = 0 ∨ i = 1 ∨ i = 2 ∨ i = 3 := by omega
    · rw [BitVec.add_zero, if_pos rfl, ← first]
    · rw [if_neg (by bv_omega), if_pos rfl, ← load32_byte before address (by omega)]
    · rw [if_neg (by bv_omega), if_neg (by bv_omega), if_pos rfl, ← load32_byte before address (by omega)]
    · rw [if_neg (by bv_omega), if_neg (by bv_omega), if_neg (by bv_omega), if_pos rfl,
        ← load32_byte before address (by omega)]
  · have other : ∀ i < 4, target ≠ address + BitVec.ofNat 32 i :=
      fun i bound here => within ⟨i, bound, here⟩
    rw [store32_other _ _ other, same other]

theorem load32_store32_ne (bytes : Bytes) {address other : BitVec 32} (value : BitVec 32)
    (aligned : address.toNat % 4 = 0) (otherAligned : other.toNat % 4 = 0)
    (different : other ≠ address) :
    load32 (store32 bytes address value) other = load32 bytes other := by
  have apart : ∀ i < 4, ∀ j < 4, other + BitVec.ofNat 32 i ≠ address + BitVec.ofNat 32 j := by
    intro i iBound j jBound same
    apply different
    bv_omega
  exact load32_congr (fun i bound => store32_other bytes value (apart i bound))

end ByteMemory
