import Mathlib.Data.List.Range
import Mathlib.Data.Set.Pairwise.Basic

/-! Runs of consecutive cells in an indexed pool, the leftmost run of free cells, and the
first index at which a test holds. Nothing here depends on what a cell stores. -/

namespace BlockPool

/-- The cells `first, first + 1, …, first + length - 1`. -/
structure Interval where
  first : Nat
  length : Nat
  deriving DecidableEq, Repr

def Interval.Holds (run : Interval) (cell : Nat) : Prop :=
  run.first ≤ cell ∧ cell < run.first + run.length

def Interval.Apart (left right : Interval) : Prop :=
  left.first + left.length ≤ right.first ∨ right.first + right.length ≤ left.first

/-- Non-empty and wholly below `bound`. -/
def Interval.Within (bound : Nat) (run : Interval) : Prop :=
  0 < run.length ∧ run.first + run.length ≤ bound

instance (run : Interval) (cell : Nat) : Decidable (run.Holds cell) :=
  inferInstanceAs (Decidable (_ ∧ _))

instance (left right : Interval) : Decidable (left.Apart right) :=
  inferInstanceAs (Decidable (_ ∨ _))

instance (bound : Nat) (run : Interval) : Decidable (run.Within bound) :=
  inferInstanceAs (Decidable (_ ∧ _))

theorem Interval.Apart.symm {left right : Interval} (apart : left.Apart right) :
    right.Apart left := Or.symm apart

theorem Interval.Apart.not_both {left right : Interval} (apart : left.Apart right) {cell : Nat}
    (inLeft : left.Holds cell) : ¬right.Holds cell := by
  unfold Interval.Apart at apart
  unfold Interval.Holds at inLeft ⊢
  omega

theorem Interval.apart_of_no_common {left right : Interval} (leftPositive : 0 < left.length)
    (rightPositive : 0 < right.length)
    (separate : ∀ cell, left.Holds cell → ¬right.Holds cell) : left.Apart right := by
  by_contra overlap
  have atMax := separate (max left.first right.first)
  unfold Interval.Apart at overlap
  unfold Interval.Holds at atMax
  omega

theorem Interval.ne_of_apart {left right : Interval} (positive : 0 < left.length)
    (apart : left.Apart right) : left ≠ right := by
  rintro rfl
  unfold Interval.Apart at apart
  omega

section FreeRuns
variable {free : Nat → Prop} {bound : Nat}

/-- All cells of the run `start, …, start + length - 1` are free cells below `bound`. -/
def FreeRun (free : Nat → Prop) (bound length start : Nat) : Prop :=
  start + length ≤ bound ∧ ∀ cell, start ≤ cell → cell < start + length → free cell

def LeastFreeRun (free : Nat → Prop) (bound length start : Nat) : Prop :=
  FreeRun free bound length start ∧ ∀ other, FreeRun free bound length other → start ≤ other

theorem FreeRun.avoids {length start taken : Nat} (run : FreeRun free bound length start)
    (notFree : ¬free taken) : taken < start ∨ start + length ≤ taken := by
  by_contra inside
  exact notFree (run.2 taken (by omega) (by omega))

end FreeRuns

section Families
variable {live : Set Interval}

theorem pairwise_insert {fresh : Interval} (apart : live.Pairwise Interval.Apart)
    (separate : ∀ run ∈ live, fresh.Apart run) : (insert fresh live).Pairwise Interval.Apart :=
  apart.insert (fun run member _ => ⟨separate run member, (separate run member).symm⟩)

end Families

end BlockPool

namespace Search

/-- A loop that breaks at its find. -/
def firstIndex (count : Nat) (found : Nat → Bool) : Option Nat := (List.range count).find? found

variable {count i : Nat} {found : Nat → Bool}

theorem firstIndex_some (first : firstIndex count found = some i) :
    i < count ∧ found i = true ∧ ∀ j < i, found j = false := by
  obtain ⟨here, member, before⟩ := List.find?_range_eq_some.mp first
  exact ⟨List.mem_range.mp member, here, fun j earlier => by simpa using before j earlier⟩

theorem firstIndex_eq (bound : i < count) (here : found i = true) (before : ∀ j < i, found j = false) :
    firstIndex count found = some i :=
  List.find?_range_eq_some.mpr
    ⟨here, List.mem_range.mpr bound, fun j earlier => by simp [before j earlier]⟩

theorem firstIndex_none (missing : firstIndex count found = none) (bound : i < count) :
    found i = false := by
  simpa using List.find?_range_eq_none.mp missing i bound

end Search
