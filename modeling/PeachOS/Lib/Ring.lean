import Mathlib.Data.List.GetD
import Mathlib.Data.Nat.ModEq
import Mathlib.Logic.Function.Basic

/-! A ring of slots without a count: the slots in use are those that are not blank.
Positions count up without end and are taken modulo the capacity. -/

namespace Ring
variable {α : Type*}

/-- The slots from position `head` on hold `queue`, in order, and all others are blank. -/
structure Holds (capacity : Nat) (blank : α) (slots : Nat → α) (head : Nat) (queue : List α) : Prop where
  short : queue.length ≤ capacity
  proper : blank ∉ queue
  cells : ∀ k < capacity, slots ((head + k) % capacity) = queue.getD k blank

/-- The slots at `count` positions from `head` on. -/
def contents (capacity : Nat) (slots : Nat → α) (head count : Nat) : List α :=
  (List.range count).map (fun k => slots ((head + k) % capacity))

section Positions
variable {capacity head i j : Nat}

theorem slot_inj (iBound : i < capacity) (jBound : j < capacity)
    (same : (head + i) % capacity = (head + j) % capacity) : i = j := by
  have cong : i % capacity = j % capacity := Nat.ModEq.add_left_cancel' head same
  rwa [Nat.mod_eq_of_lt iBound, Nat.mod_eq_of_lt jBound] at cong

end Positions

section Holds
variable {capacity head : Nat} {blank value : α} {slots : Nat → α} {queue : List α}

theorem Holds.empty (none : ∀ k < capacity, slots k = blank) :
    Holds capacity blank slots head [] := by
  refine ⟨Nat.zero_le _, List.not_mem_nil, fun k bound => ?_⟩
  rw [List.getD_nil]
  exact none _ (Nat.mod_lt _ (by omega))

theorem Holds.shift {other : Nat} (holds : Holds capacity blank slots head queue)
    (same : other % capacity = head % capacity) : Holds capacity blank slots other queue := by
  refine ⟨holds.short, holds.proper, fun k bound => ?_⟩
  rw [Nat.add_mod, same, ← Nat.add_mod]
  exact holds.cells k bound

theorem Holds.front (holds : Holds capacity blank slots head queue) (positive : 0 < capacity) :
    slots (head % capacity) = queue.headD blank := by
  have first := holds.cells 0 positive
  rw [Nat.add_zero] at first
  rw [first]
  cases queue <;> rfl

theorem Holds.head_blank_iff (holds : Holds capacity blank slots head queue) (positive : 0 < capacity) :
    slots (head % capacity) = blank ↔ queue = [] := by
  rw [holds.front positive]
  cases queue with
  | nil => simp
  | cons first rest =>
    have proper := holds.proper
    rw [List.mem_cons, not_or] at proper
    simpa using Ne.symm proper.1

theorem Holds.push [DecidableEq α] (holds : Holds capacity blank slots head queue)
    (room : queue.length < capacity) (proper : value ≠ blank) :
    Holds capacity blank (Function.update slots ((head + queue.length) % capacity) value) head
      (queue ++ [value]) := by
  refine ⟨by simpa using Nat.succ_le_of_lt room, ?_, fun k bound => ?_⟩
  · rw [List.mem_append, List.mem_singleton]
    rintro (old | same)
    · exact holds.proper old
    · exact proper same.symm
  · rw [Function.update_apply]
    by_cases here : k = queue.length
    · rw [here, if_pos rfl]
      simp [List.getD_eq_getElem?_getD]
    · rw [if_neg (fun same => here (slot_inj bound room same)), holds.cells k bound]
      by_cases old : k < queue.length
      · rw [List.getD_append _ _ _ _ old]
      · have outside : (queue ++ [value]).length ≤ k := by
          rw [List.length_append, List.length_singleton]
          omega
        rw [List.getD_eq_default _ _ (by omega), List.getD_eq_default _ _ outside]

theorem Holds.pop [DecidableEq α] {first : α} {rest : List α}
    (holds : Holds capacity blank slots head (first :: rest)) :
    Holds capacity blank (Function.update slots (head % capacity) blank) (head + 1) rest := by
  have short := holds.short
  have proper := holds.proper
  rw [List.length_cons] at short
  rw [List.mem_cons, not_or] at proper
  refine ⟨by omega, proper.2, fun k bound => ?_⟩
  rw [Function.update_apply, Nat.add_assoc, Nat.add_comm 1 k]
  by_cases last : k + 1 = capacity
  · -- the slot that is emptied comes round as the last one
    rw [if_pos (by rw [last, Nat.add_mod_right]), List.getD_eq_default _ _ (by omega)]
  · have different : (head + (k + 1)) % capacity ≠ head % capacity := by
      intro same
      have := slot_inj (j := 0) (by omega) (by omega) same
      omega
    rw [if_neg different, holds.cells (k + 1) (by omega), List.getD_cons_succ]

theorem Holds.dropLast [DecidableEq α] {last : α}
    (holds : Holds capacity blank slots head (queue ++ [last])) :
    Holds capacity blank (Function.update slots ((head + queue.length) % capacity) blank) head queue := by
  have short := holds.short
  have proper := holds.proper
  rw [List.length_append, List.length_singleton] at short
  rw [List.mem_append, not_or] at proper
  refine ⟨by omega, proper.1, fun k bound => ?_⟩
  rw [Function.update_apply]
  by_cases here : k = queue.length
  · rw [here, if_pos rfl, List.getD_eq_default _ _ (Nat.le_refl _)]
  · rw [if_neg (fun same => here (slot_inj bound (by omega) same)), holds.cells k bound]
    by_cases old : k < queue.length
    · rw [List.getD_append _ _ _ _ old]
    · have outside : (queue ++ [last]).length ≤ k := by
        rw [List.length_append, List.length_singleton]
        omega
      rw [List.getD_eq_default _ _ outside, List.getD_eq_default _ _ (by omega)]

theorem Holds.contents (holds : Holds capacity blank slots head queue) :
    contents capacity slots head queue.length = queue := by
  unfold Ring.contents
  apply List.ext_getElem
  · simp
  · intro k inside _
    rw [List.length_map, List.length_range] at inside
    rw [List.getElem_map, List.getElem_range, holds.cells k (by have := holds.short; omega)]
    exact List.getD_eq_getElem _ _ _

theorem holds_contents_iff {count : Nat} :
    (count ≤ capacity ∧ ∀ k < capacity, slots ((head + k) % capacity) ≠ blank ↔ k < count) ↔
      count ≤ capacity ∧ Holds capacity blank slots head (Ring.contents capacity slots head count) := by
  refine and_congr_right fun short => ?_
  have length : (Ring.contents capacity slots head count).length = count := by simp [Ring.contents]
  have cell : ∀ k < count, (Ring.contents capacity slots head count).getD k blank =
      slots ((head + k) % capacity) := by
    intro k bound
    rw [List.getD_eq_getElem _ _ (by rw [length]; exact bound)]
    simp [Ring.contents]
  constructor
  · intro used
    refine ⟨by rw [length]; exact short, ?_, fun k bound => ?_⟩
    · intro member
      obtain ⟨k, inRange, same⟩ := List.mem_map.mp member
      have bound := List.mem_range.mp inRange
      exact (used k (by omega)).mpr bound same
    · by_cases inside : k < count
      · rw [cell k inside]
      · rw [List.getD_eq_default _ _ (by rw [length]; omega)]
        by_contra other
        exact inside ((used k bound).mp other)
  · intro holds k bound
    rw [holds.cells k bound]
    constructor
    · intro other
      by_contra outside
      exact other (List.getD_eq_default _ _ (by rw [length]; omega))
    · intro inside
      have member : (Ring.contents capacity slots head count).getD k blank ∈
          Ring.contents capacity slots head count := by
        rw [List.getD_eq_getElem _ _ (by rw [length]; exact inside)]
        exact List.getElem_mem _
      exact fun same => holds.proper (same ▸ member)

end Holds

end Ring
