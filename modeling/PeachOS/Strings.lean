import PeachOS.Machine

/-! `string/string.c`. A string is the list of its bytes; what lies past the end of the
list reads as the terminator. -/

namespace PeachOS

def tolower (s1 : Byte) : Byte := if 65 ≤ s1.toNat ∧ s1.toNat ≤ 90 then s1 + 32 else s1

def strlen : List Byte → Nat
  | [] => 0
  | c :: rest => if c = 0 then 0 else strlen rest + 1

def strnlen : List Byte → (max : Nat) → Nat
  | _, 0 => 0
  | [], _ + 1 => 0
  | c :: rest, max + 1 => if c = 0 then 0 else strnlen rest max + 1

/-- The comparison of `istrncmp` and `strncmp`, which take two bytes for the same when
`same` says so. -/
def compareStrings (same : Byte → Byte → Bool) (s1 s2 : List Byte) : Nat → Int
  | 0 => 0
  | n + 1 =>
      let u1 := s1.headD 0
      let u2 := s2.headD 0
      if !same u1 u2 then (u1.toNat : Int) - u2.toNat
      else if u1 = 0 then 0
      else compareStrings same s1.tail s2.tail n

/-- Not case sensitive. -/
def istrncmp (s1 s2 : List Byte) (n : Nat) : Int :=
  compareStrings (fun u1 u2 => u1 == u2 || tolower u1 == tolower u2) s1 s2 n

def strncmp (str1 str2 : List Byte) (n : Nat) : Int :=
  compareStrings (fun u1 u2 => u1 == u2) str1 str2 n

/-- The bytes that `strncpy` stores, with the terminator. -/
def strncpy (src : List Byte) (count : Nat) : List Byte := src.take (strnlen src (count - 1)) ++ [0]

def isdigit (c : Byte) : Bool := 48 ≤ c.toNat && c.toNat ≤ 57

def tonumericdigit (c : Byte) : Int := (c.toNat : Int) - 48

/-- The loop of `itoa` on a number that is not positive: its digits before those in `text`.
An `int` has ten digits at most. -/
def itoaLoop : (fuel : Nat) → (i : Int) → (text : List Byte) → List Byte
  | 0, _, text => text
  | fuel + 1, i, text =>
      if i = 0 then text else itoaLoop fuel (i.tdiv 10) (BitVec.ofInt 8 (48 - i.tmod 10) :: text)

def itoa (i : Int) : List Byte :=
  let digits := itoaLoop 10 (if 0 ≤ i then -i else i) []
  let text := if digits = [] then [48] else digits
  if 0 ≤ i then text else 45 :: text

theorem strlen_le (str : List Byte) : strlen str ≤ str.length := by
  induction str with
  | nil => exact Nat.le_refl _
  | cons c rest ih =>
    rw [strlen, List.length_cons]
    split
    · exact Nat.zero_le _
    · omega

theorem strnlen_of_nonzero {str : List Byte} {max : Nat} (short : max ≤ str.length)
    (nonzero : ∀ c ∈ str.take max, c ≠ 0) : strnlen str max = max := by
  induction max generalizing str with
  | zero => rw [strnlen]
  | succ max ih =>
    cases str with
    | nil => simp at short
    | cons c rest =>
      rw [List.take_succ_cons] at nonzero
      rw [strnlen, if_neg (nonzero c (List.mem_cons_self ..)),
        ih (Nat.le_of_succ_le_succ short) (fun d member => nonzero d (List.mem_cons_of_mem _ member))]

theorem strnlen_mono (str : List Byte) {few many : Nat} (le : few ≤ many) :
    strnlen str few ≤ strnlen str many := by
  induction str generalizing few many with
  | nil => cases few <;> cases many <;> simp [strnlen]
  | cons c rest ih =>
    cases few with
    | zero => simp [strnlen]
    | succ few =>
      cases many with
      | zero => omega
      | succ many =>
        rw [strnlen, strnlen]
        split
        · exact Nat.le_refl _
        · exact Nat.succ_le_succ (ih (by omega))

theorem strnlen_eq_min (str : List Byte) (max : Nat) : strnlen str max = min max (strlen str) := by
  induction str generalizing max with
  | nil => cases max <;> simp [strnlen, strlen]
  | cons c rest ih =>
    cases max with
    | zero => simp [strnlen]
    | succ max =>
      rw [strnlen, strlen]
      split
      · simp
      · rw [ih]
        omega

theorem nonzero_of_mem_strlen {str : List Byte} {c : Byte} (member : c ∈ str.take (strlen str)) : c ≠ 0 := by
  induction str with
  | nil => simp at member
  | cons d rest ih =>
    rw [strlen] at member
    split at member
    · simp at member
    next nonzero =>
      rw [List.take_succ_cons, List.mem_cons] at member
      rcases member with rfl | later
      · exact nonzero
      · exact ih later

theorem strlen_append_zero {str : List Byte} (nonzero : ∀ c ∈ str, c ≠ 0) (rest : List Byte) :
    strlen (str ++ 0 :: rest) = str.length := by
  induction str with
  | nil => rfl
  | cons c str ih =>
    rw [List.cons_append, strlen, if_neg (nonzero c List.mem_cons_self), List.length_cons,
      ih (fun d member => nonzero d (List.mem_cons_of_mem _ member))]

theorem strlen_of_nonzero {str : List Byte} (nonzero : ∀ c ∈ str, c ≠ 0) : strlen str = str.length := by
  induction str with
  | nil => rfl
  | cons c str ih =>
    rw [strlen, if_neg (nonzero c List.mem_cons_self), List.length_cons,
      ih (fun d member => nonzero d (List.mem_cons_of_mem _ member))]

theorem strncpy_append_zero {str : List Byte} (nonzero : ∀ c ∈ str, c ≠ 0) (rest : List Byte) (count : Nat) :
    strncpy (str ++ 0 :: rest) count = strncpy str count := by
  unfold strncpy
  rw [strnlen_eq_min, strnlen_eq_min, strlen_append_zero nonzero, strlen_of_nonzero nonzero,
    List.take_append_of_le_length (Nat.min_le_right _ _)]

theorem strncpy_short {str : List Byte} (nonzero : ∀ c ∈ str, c ≠ 0) {count : Nat} (short : str.length < count) :
    strncpy str count = str ++ [0] := by
  unfold strncpy
  rw [strnlen_eq_min, strlen_of_nonzero nonzero, Nat.min_eq_right (Nat.le_sub_one_of_lt short), List.take_length]

end PeachOS
