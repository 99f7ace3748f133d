import PeachOS.Lib.Bytes

/-! A flat store seen through the log of its writes: a key reads as the last value
written to it, or as its first value if it was never written. -/

namespace WriteLog
variable {Key Value : Type*} [DecidableEq Key]

def lastWrite : List (Key × Value) → Key → Option Value
  | [], _ => none
  | (key, value) :: rest, target =>
      (lastWrite rest target).or (if target = key then some value else none)

/-- The store that the writes of `log` leave of `view`. -/
def replay (view : Key → Value) (log : List (Key × Value)) (target : Key) : Value :=
  (lastWrite log target).getD (view target)

@[simp] theorem replay_nil (view : Key → Value) : replay view [] = view := rfl

@[simp] theorem replay_cons (view : Key → Value) (key : Key) (value : Value)
    (rest : List (Key × Value)) :
    replay view ((key, value) :: rest) = replay (Function.update view key value) rest := by
  funext target
  simp only [replay, lastWrite, Function.update_apply]
  cases lastWrite rest target <;> by_cases here : target = key <;> simp [here]

theorem lastWrite_append (first second : List (Key × Value)) (target : Key) :
    lastWrite (first ++ second) target =
      (lastWrite second target).or (lastWrite first target) := by
  induction first with
  | nil => simp [lastWrite]
  | cons write rest ih => rw [List.cons_append, lastWrite, ih, lastWrite, Option.or_assoc]

theorem lastWrite_mem {log : List (Key × Value)} {key : Key}
    {value : Value} (last : lastWrite log key = some value) : (key, value) ∈ log := by
  induction log with
  | nil => cases last
  | cons write rest ih =>
    rw [lastWrite] at last
    cases later : lastWrite rest key with
    | some found =>
      rw [later] at last
      obtain rfl := Option.some.inj last
      exact List.mem_cons_of_mem _ (ih later)
    | none =>
      rw [later, Option.none_or] at last
      split at last
      next here =>
        obtain rfl := Option.some.inj last
        rw [here]
        exact List.mem_cons_self
      · cases last

theorem replay_append (view : Key → Value) (first second : List (Key × Value)) :
    replay view (first ++ second) = replay (replay view first) second := by
  funext target
  simp only [replay, lastWrite_append]
  cases lastWrite second target <;> simp

/-- Logs one after the other: the last of them that writes to the key decides. -/
theorem lastWrite_flatMap {Item : Type*} (items : List Item) (writes : Item → List (Key × Value)) (target : Key) :
    lastWrite (items.flatMap writes) target =
      items.reverse.findSome? (fun item => lastWrite (writes item) target) := by
  induction items with
  | nil => rfl
  | cons item rest ih =>
    rw [List.flatMap_cons, lastWrite_append, ih, List.reverse_cons, List.findSome?_append, List.findSome?_singleton]

section Map
variable {Image : Type*} (f : Value → Image)

theorem lastWrite_map (log : List (Key × Value)) (target : Key) :
    lastWrite (log.map (Prod.map id f)) target = (lastWrite log target).map f := by
  induction log with
  | nil => rfl
  | cons write rest ih =>
    rw [List.map_cons, Prod.map, lastWrite, ih, lastWrite]
    cases lastWrite rest target <;> by_cases here : target = write.1 <;> simp [here]

theorem replay_map (view : Key → Value) (log : List (Key × Value)) (target : Key) :
    f (replay view log target) = replay (f ∘ view) (log.map (Prod.map id f)) target := by
  rw [replay, replay, lastWrite_map]
  cases lastWrite log target <;> rfl

end Map

section Bytes
open ByteMemory

/-- The writes of a run of bytes, one address after the other. -/
def storesFrom (address : BitVec 32) : List (BitVec 8) → List (BitVec 32 × BitVec 8)
  | [] => []
  | value :: rest => (address, value) :: storesFrom (address + 1) rest

theorem replay_storesFrom (bytes : Bytes) (address : BitVec 32) (content : List (BitVec 8)) :
    replay bytes (storesFrom address content) = storeBytes bytes address content := by
  induction content generalizing bytes address with
  | nil => rfl
  | cons value rest ih => rw [storesFrom, replay_cons, ih, storeBytes]

theorem storesFrom_append (address : BitVec 32) (first second : List (BitVec 8)) :
    storesFrom address (first ++ second) =
      storesFrom address first ++ storesFrom (address + BitVec.ofNat 32 first.length) second := by
  induction first generalizing address with
  | nil => simp [storesFrom]
  | cons value rest ih =>
    have next : address + 1 + BitVec.ofNat 32 rest.length = address + BitVec.ofNat 32 (rest.length + 1) := by
      bv_omega
    rw [List.cons_append, storesFrom, ih, storesFrom, List.length_cons, next, List.cons_append]

theorem address_mem_storesFrom {address target : BitVec 32} {content : List (BitVec 8)} :
    target ∈ (storesFrom address content).map Prod.fst ↔
      ∃ i < content.length, target = address + BitVec.ofNat 32 i := by
  induction content generalizing address with
  | nil => simp [storesFrom]
  | cons value rest ih =>
    rw [storesFrom, List.map_cons, List.mem_cons, ih, List.length_cons]
    constructor
    · rintro (rfl | ⟨i, bound, rfl⟩)
      · exact ⟨0, by omega, by simp⟩
      · exact ⟨i + 1, by omega, by bv_omega⟩
    · rintro ⟨i, bound, rfl⟩
      cases i with
      | zero => exact Or.inl (by simp)
      | succ i => exact Or.inr ⟨i, by omega, by bv_omega⟩

end Bytes

end WriteLog
