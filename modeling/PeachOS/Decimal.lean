import PeachOS.Printf

/-! `itoa` of `string/string.c` over the array that it writes to, with the range of every `int` it computes. The
user's `stdlib.c` has the same function. -/

namespace PeachOS
open Stdlib (decimal)

/-- The value of an `int` expression; none when it overflows. -/
def intValue (value : Int) : Option Int := if -2 ^ 31 ≤ value ∧ value < 2 ^ 31 then some value else none

/-- `static char text[12]`, and the index into it. -/
structure ItoaText where
  text : Vector Byte 12
  loc : Int

/-- `text[--loc] = c`; none when that is outside of the array. -/
def ItoaText.push (state : ItoaText) (c : Byte) : Option ItoaText :=
  if inside : 0 ≤ state.loc - 1 ∧ state.loc - 1 < 12 then
    some ⟨state.text.set (state.loc - 1).toNat c (by omega), state.loc - 1⟩
  else none

def itoaLoopAt (state : ItoaText) (i : Int) : Option ItoaText :=
  if nonzero : i = 0 then some state
  else do
    let remainder ← intValue (i.tmod 10)
    let digit ← intValue (48 - remainder)
    let pushed ← state.push (BitVec.ofInt 8 digit)
    let _ ← intValue (i.tdiv 10)
    itoaLoopAt pushed (i.tdiv 10)
termination_by i.natAbs
decreasing_by
  rw [Int.natAbs_tdiv]
  exact Nat.div_lt_self (by omega) (by decide)

def itoaAt (text : Vector Byte 12) (i : Int) : Option ItoaText := do
  let negated ← (if 0 ≤ i then intValue (-i) else some i)
  let digits ← itoaLoopAt ⟨text.set 11 0, 11⟩ negated
  let number ← (if digits.loc = 11 then digits.push 48 else some digits)
  if 0 ≤ i then some number else number.push 45

/-- `itoa` of the user's `stdlib.c` -/
def Stdlib.itoaAt (text : Vector Byte 12) (i : Int) : Option ItoaText := PeachOS.itoaAt text i

def ItoaText.Ends (state : ItoaText) (written : List Byte) : Prop :=
  0 ≤ state.loc ∧ state.loc + written.length = 12 ∧ state.text.toList.drop state.loc.toNat = written

def digitsOf (n : Nat) : List Byte := (Nat.digits 10 n).reverse.map (fun digit => BitVec.ofNat 8 (0x30 + digit))

def digitsValue (digits : List Byte) : Int := digits.foldl (fun value c => 10 * value + tonumericdigit c) 0

/-- A decimal number as it is read, with its sign. -/
def parseDecimal (text : List Byte) : Option Int :=
  let digits := if text.head? = some 45 then text.tail else text
  if digits ≠ [] ∧ digits.all isdigit then
    some (if text.head? = some 45 then -digitsValue digits else digitsValue digits)
  else none

/-- One sign at most, and no digit before the first that counts. -/
def CanonicalDecimal (text : List Byte) : Prop :=
  text = [48] ∨ ∃ sign digits, text = sign ++ digits ∧ (sign = [] ∨ sign = [45]) ∧ digits ≠ [] ∧
    (∀ c ∈ digits, isdigit c) ∧ digits.head? ≠ some 48

section Digits

theorem digitsOf_ne_nil {n : Nat} (positive : n ≠ 0) : digitsOf n ≠ [] := by
  unfold digitsOf
  rw [Ne, List.map_eq_nil_iff, List.reverse_eq_nil_iff]
  exact Nat.digits_ne_nil_iff_ne_zero.mpr positive

theorem tonumericdigit_digit {d : Nat} (small : d < 10) : tonumericdigit (BitVec.ofNat 8 (0x30 + d)) = d := by
  unfold tonumericdigit
  rw [BitVec.toNat_ofNat, Nat.mod_eq_of_lt (by omega)]
  omega

theorem isdigit_digit {d : Nat} (small : d < 10) : isdigit (BitVec.ofNat 8 (0x30 + d)) = true := by
  unfold isdigit
  rw [BitVec.toNat_ofNat, Nat.mod_eq_of_lt (by omega)]
  simp
  omega

theorem digitsValue_digitsOf (n : Nat) : digitsValue (digitsOf n) = n := by
  have value : ∀ digits : List Nat, (∀ d ∈ digits, d < 10) →
      digitsValue (digits.reverse.map (fun digit => BitVec.ofNat 8 (0x30 + digit))) =
        ((Nat.ofDigits 10 digits : Nat) : Int) := by
    intro digits small
    unfold digitsValue
    rw [List.foldl_map, List.foldl_reverse]
    induction digits with
    | nil => rfl
    | cons d rest ih =>
      obtain ⟨first, later⟩ := List.forall_mem_cons.mp small
      rw [List.foldr_cons, ih later, tonumericdigit_digit first, Nat.ofDigits_cons]
      push_cast
      omega
  unfold digitsOf
  rw [value _ (fun d member => Nat.digits_lt_base (by decide) member), Nat.ofDigits_digits]

theorem digitsOf_isdigit (n : Nat) : ∀ c ∈ digitsOf n, isdigit c = true := by
  intro c member
  obtain ⟨d, listed, rfl⟩ := List.mem_map.mp member
  exact isdigit_digit (Nat.digits_lt_base (by decide) (List.mem_reverse.mp listed))

theorem digitsOf_head {n : Nat} (positive : n ≠ 0) : (digitsOf n).head? ≠ some 48 := by
  have nonempty : Nat.digits 10 n ≠ [] := Nat.digits_ne_nil_iff_ne_zero.mpr positive
  have last := Nat.getLast_digit_ne_zero 10 positive
  have small := Nat.digits_lt_base (b := 10) (by decide) (List.getLast_mem nonempty)
  unfold digitsOf
  rw [List.head?_map, List.head?_reverse, List.getLast?_eq_some_getLast nonempty, Option.map_some]
  intro same
  have value := congrArg BitVec.toNat (Option.some.inj same)
  rw [BitVec.toNat_ofNat, Nat.mod_eq_of_lt (by omega)] at value
  exact last (by simpa using value)

theorem digitsOf_unsigned (n : Nat) : (digitsOf n).head? ≠ some 45 := by
  intro sign
  exact absurd (digitsOf_isdigit n 45 (List.mem_of_head? sign)) (by decide)

theorem decimal_digitsOf {i : Int} (nonzero : i ≠ 0) :
    decimal i = (if i < 0 then [45] else []) ++ digitsOf i.natAbs := by
  unfold decimal
  rw [if_neg nonzero]
  rfl

theorem decimal_sign (i : Int) : (decimal i).head? = some 45 ↔ i < 0 := by
  by_cases zero : i = 0
  · subst zero
    decide
  · rw [decimal_digitsOf zero]
    by_cases negative : i < 0
    · rw [if_pos negative]
      exact iff_of_true rfl negative
    · rw [if_neg negative, List.nil_append]
      exact iff_of_false (digitsOf_unsigned _) negative

theorem parseDecimal_decimal (i : Int) : parseDecimal (decimal i) = some i := by
  by_cases zero : i = 0
  · subst zero
    decide
  · have positive : i.natAbs ≠ 0 := Int.natAbs_ne_zero.mpr zero
    have digits : digitsOf i.natAbs ≠ [] ∧ (digitsOf i.natAbs).all isdigit :=
      ⟨digitsOf_ne_nil positive, List.all_eq_true.mpr (digitsOf_isdigit _)⟩
    unfold parseDecimal
    rw [decimal_digitsOf zero]
    by_cases negative : i < 0
    · rw [if_pos negative]
      change (if digitsOf i.natAbs ≠ [] ∧ (digitsOf i.natAbs).all isdigit then
        some (-digitsValue (digitsOf i.natAbs)) else none) = _
      rw [if_pos digits, digitsValue_digitsOf]
      congr 1
      omega
    · have unsigned := digitsOf_unsigned i.natAbs
      rw [if_neg negative, List.nil_append]
      dsimp only
      rw [if_neg unsigned, if_pos digits, if_neg unsigned, digitsValue_digitsOf]
      congr 1
      omega

theorem decimal_canonical (i : Int) : CanonicalDecimal (decimal i) := by
  by_cases zero : i = 0
  · subst zero
    exact Or.inl rfl
  · have positive : i.natAbs ≠ 0 := Int.natAbs_ne_zero.mpr zero
    refine Or.inr ⟨if i < 0 then [45] else [], digitsOf i.natAbs, decimal_digitsOf zero, ?_, digitsOf_ne_nil positive,
      digitsOf_isdigit _, digitsOf_head positive⟩
    split
    · exact Or.inr rfl
    · exact Or.inl rfl

theorem CanonicalDecimal.nonzero {text : List Byte} (canonical : CanonicalDecimal text) : ∀ c ∈ text, c ≠ 0 := by
  rintro c member rfl
  rcases canonical with rfl | ⟨sign, digits, rfl, signs, _, digit, _⟩
  · exact absurd member (by decide)
  · rcases List.mem_append.mp member with inSign | inDigits
    · rcases signs with rfl | rfl
      · exact absurd inSign List.not_mem_nil
      · exact absurd inSign (by decide)
    · exact absurd (digit 0 inDigits) (by decide)

end Digits

section Array
variable {state : ItoaText} {written : List Byte}

theorem intValue_some {value : Int} (low : -2 ^ 31 ≤ value) (high : value < 2 ^ 31) : intValue value = some value :=
  if_pos ⟨low, high⟩

theorem ItoaText.Ends.push (ends : state.Ends written) (room : written.length < 12) (c : Byte) :
    ∃ after, state.push c = some after ∧ after.Ends (c :: written) := by
  obtain ⟨_, place, held⟩ := ends
  have inside : 0 ≤ state.loc - 1 ∧ state.loc - 1 < 12 := by omega
  refine ⟨_, dif_pos inside, inside.1, ?_, ?_⟩
  · rw [List.length_cons]
    dsimp only
    omega
  · have next : (state.loc - 1).toNat + 1 = state.loc.toNat := by omega
    have bound : (state.loc - 1).toNat < state.text.toList.length := by
      rw [Vector.length_toList]
      omega
    dsimp only
    rw [Vector.toList_set, List.drop_set, if_neg (Nat.lt_irrefl _), Nat.sub_self, List.drop_eq_getElem_cons bound,
      List.set_cons_zero, next, held]

/-- The loop writes what the digits of the number are, where there is room for them. -/
theorem itoaLoopAt_run (fuel n : Nat) (small : n < 10 ^ fuel) (range : n ≤ 2 ^ 31) (ends : state.Ends written)
    (room : written.length + fuel ≤ 12) :
    ∃ after, itoaLoopAt state (-(n : Int)) = some after ∧ after.Ends (itoaLoop fuel (-(n : Int)) written) := by
  induction fuel generalizing n state written with
  | zero =>
    have zero : n = 0 := by omega
    subst zero
    refine ⟨state, ?_, ends⟩
    unfold itoaLoopAt
    exact dif_pos rfl
  | succ fuel ih =>
    unfold itoaLoopAt
    rw [itoaLoop]
    by_cases zero : n = 0
    · subst zero
      exact ⟨state, dif_pos rfl, ends⟩
    · have quotient : (-(n : Int)).tdiv 10 = -((n / 10 : Nat) : Int) := by
        rw [Int.neg_tdiv, Int.natCast_ediv, Int.tdiv_eq_ediv_of_nonneg (by omega)]
        rfl
      have remainder : (-(n : Int)).tmod 10 = -((n % 10 : Nat) : Int) := by
        rw [Int.neg_tmod, Int.tmod_eq_emod_of_nonneg (by omega)]
        rfl
      have shorter : n / 10 < 10 ^ fuel := by
        rw [Nat.pow_succ] at small
        omega
      obtain ⟨pushed, push, next⟩ := ends.push (by omega) (BitVec.ofInt 8 (48 - (-(n : Int)).tmod 10))
      obtain ⟨after, ran, last⟩ := ih (n / 10) shorter (by omega) next (by rw [List.length_cons]; omega)
      refine ⟨after, ?_, ?_⟩
      · have modulo : intValue ((-(n : Int)).tmod 10) = some ((-(n : Int)).tmod 10) :=
          intValue_some (by omega) (by omega)
        have digit : intValue (48 - (-(n : Int)).tmod 10) = some (48 - (-(n : Int)).tmod 10) :=
          intValue_some (by omega) (by omega)
        have divided : intValue (-((n / 10 : Nat) : Int)) = some (-((n / 10 : Nat) : Int)) :=
          intValue_some (by omega) (by omega)
        rw [dif_neg (by omega), modulo, Option.bind_eq_bind, Option.bind_some, digit, Option.bind_eq_bind,
          Option.bind_some, push, Option.bind_some, quotient, divided]
        exact ran
      · rw [if_neg (by omega), quotient]
        exact last

theorem itoaText_start (text : Vector Byte 12) : (⟨text.set 11 0, 11⟩ : ItoaText).Ends [0] := by
  refine ⟨(by decide : (0 : Int) ≤ 11), rfl, ?_⟩
  have length : (text.set 11 0).toList.length = 12 := Vector.length_toList
  dsimp only
  rw [show (11 : Int).toNat = 11 from rfl, List.drop_eq_getElem_cons (by omega),
    List.drop_eq_nil_of_le (by omega)]
  simp

theorem itoaAt_run (text : Vector Byte 12) (ival : Word) :
    ∃ after, itoaAt text ival.toInt = some after ∧ after.Ends (itoa ival.toInt ++ [0]) := by
  have low := BitVec.le_toInt ival
  have high := BitVec.toInt_lt (x := ival)
  rw [Stdlib.itoa_decimal]
  generalize ival.toInt = i at low high
  have magnitude : (if 0 ≤ i then intValue (-i) else some i) = some (-(i.natAbs : Int)) := by
    split
    · rw [intValue_some (by omega) (by omega)]
      congr 1
      omega
    · congr 1
      omega
  obtain ⟨digits, looped, ends⟩ := itoaLoopAt_run 10 i.natAbs (by omega) (by omega) (itoaText_start text) (by decide)
  rw [Stdlib.itoaLoop_digits 10 i.natAbs (by omega)] at ends
  change digits.Ends (digitsOf i.natAbs ++ [0]) at ends
  have count : (digitsOf i.natAbs).length ≤ 10 := by
    unfold digitsOf
    rw [List.length_map, List.length_reverse]
    exact (Nat.digits_length_le_iff (by decide) _).mpr (by omega)
  have place := ends.2.1
  rw [List.length_append, List.length_singleton] at place
  unfold itoaAt decimal
  rw [magnitude, Option.bind_eq_bind, Option.bind_some, looped, Option.bind_eq_bind, Option.bind_some]
  by_cases zero : i = 0
  · subst zero
    have none : digitsOf (Int.natAbs 0) = [] := rfl
    rw [none] at ends place
    obtain ⟨after, pushed, last⟩ := ends.push (by decide) 48
    have empty : digits.loc = 11 := by
      rw [List.length_nil] at place
      omega
    refine ⟨after, ?_, last⟩
    rw [if_pos empty, pushed]
    rfl
  · have some_digits := List.length_pos_iff.mpr (digitsOf_ne_nil (n := i.natAbs) (by omega))
    rw [if_neg (by omega), Option.bind_some, if_neg zero]
    by_cases sign : 0 ≤ i
    · rw [if_pos sign, if_neg (Int.not_lt.mpr sign)]
      exact ⟨digits, rfl, ends⟩
    · rw [if_neg sign, if_pos (Int.not_le.mp sign)]
      exact ends.push (by rw [List.length_append, List.length_singleton]; omega) 45

end Array

/-- `itoa` writes the decimal form of every `int` into its array, no index is outside of it and no `int` overflows. -/
theorem itoa_canonical (text : Vector Byte 12) (ival : Word) :
    ∃ after, itoaAt text ival.toInt = some after ∧ Stdlib.itoaAt text ival.toInt = some after ∧
      0 ≤ after.loc ∧ after.loc < 12 ∧
      ∃ str, after.text.toList.drop after.loc.toNat = str ++ [0] ∧ (∀ c ∈ str, c ≠ 0) ∧ CanonicalDecimal str ∧
        (str.head? = some 45 ↔ ival.toInt < 0) ∧ parseDecimal str = some ival.toInt := by
  obtain ⟨after, ran, inside, place, held⟩ := itoaAt_run text ival
  rw [Stdlib.itoa_decimal] at place held
  rw [List.length_append, List.length_singleton] at place
  have canonical := decimal_canonical ival.toInt
  exact ⟨after, ran, ran, inside, by omega, decimal ival.toInt, held, canonical.nonzero, canonical, decimal_sign _,
    parseDecimal_decimal _⟩

end PeachOS
