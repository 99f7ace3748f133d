import Mathlib.Data.Nat.Digits.Lemmas
import PeachOS.Strings

/-! `printf` of the user's `stdio.c`, over the two calls that put characters on the terminal. The format is read
through a pointer, the places that are read are kept. -/

namespace PeachOS.Stdlib

abbrev percent : Byte := 0x25
abbrev conversionInt : Byte := 0x69
abbrev conversionString : Byte := 0x73

/-- An argument after the format: an `int`, or what a `char*` points at. -/
inductive VarArg where
  | int (ival : Word)
  | str (sval : List Byte)
  deriving DecidableEq

/-- What the call has emitted, the arguments that are left, and the places of the format that it has read. -/
structure Printing where
  output : List Byte
  args : List VarArg
  reads : List Nat
  deriving DecidableEq

/-- The system call copies the message to a buffer of 1024 characters and shows what is there. -/
def print (message : List Byte) : List Byte :=
  let buf := strncpy message 1024
  buf.take (strlen buf)

def Printing.emit (call : Printing) (characters : List Byte) : Printing :=
  { call with output := call.output ++ characters }

def Printing.read (call : Printing) (p : Nat) : Printing := { call with reads := call.reads ++ [p] }

/-- The loop at `fmt + p`; none when it does not end in `fuel` rounds, or takes an argument that is not there.
The `itoa` of `stdlib.c` is word by word that of the kernel. -/
def printfLoop (fmt : Nat → Byte) : (fuel p : Nat) → Printing → Option Printing
  | 0, _, _ => none
  | fuel + 1, p, call =>
      let call := call.read p
      if fmt p = 0 then some call
      else if fmt p ≠ percent then printfLoop fmt fuel (p + 1) (call.emit [fmt p])
      else
        let p := p + 1
        let call := call.read p
        if fmt p = conversionInt then
          match call.args with
          | .int ival :: args =>
              printfLoop fmt fuel (p + 1) ({ call with args := args }.emit (print (itoa ival.toInt)))
          | _ => none
        else if fmt p = conversionString then
          match call.args with
          | .str sval :: args => printfLoop fmt fuel (p + 1) ({ call with args := args }.emit (print sval))
          | _ => none
        else printfLoop fmt fuel (p + 1) (call.emit [fmt p])

def printf (fuel : Nat) (fmt : Nat → Byte) (args : List VarArg) : Option Printing :=
  printfLoop fmt fuel 0 ⟨[], args, []⟩

def decimal (i : Int) : List Byte :=
  (if i < 0 then [0x2d] else []) ++
    (if i = 0 then [0x30] else (Nat.digits 10 i.natAbs).reverse.map (fun digit => BitVec.ofNat 8 (0x30 + digit)))

inductive Piece where
  | char (c : Byte)
  | int
  | str
  deriving DecidableEq

/-- What a format asks for, in order. A `%` at its end asks for nothing. -/
def pieces : List Byte → List Piece
  | [] => []
  | [c] => if c = percent then [] else [.char c]
  | c :: d :: rest =>
      if c = percent then
        (if d = conversionInt then .int else if d = conversionString then .str else .char d) :: pieces rest
      else .char c :: pieces (d :: rest)

/-- The pieces with their arguments put in by `int` and `str`, and the arguments that are left; none when the
arguments are not those that the format asks for. -/
def expand (int : Word → List Byte) (str : List Byte → List Byte) :
    List Piece → List VarArg → Option (List Byte × List VarArg)
  | [], args => some ([], args)
  | .char c :: rest, args => (expand int str rest args).map (fun last => (c :: last.1, last.2))
  | .int :: rest, .int ival :: args => (expand int str rest args).map (fun last => (int ival ++ last.1, last.2))
  | .str :: rest, .str sval :: args => (expand int str rest args).map (fun last => (str sval ++ last.1, last.2))
  | _, _ => none

/-- The expansion that the format and its arguments stand for. -/
def expansion (format : List Byte) (args : List VarArg) : Option (List Byte × List VarArg) :=
  expand (fun ival => decimal ival.toInt) (fun sval => sval.take (strlen sval)) (pieces format) args

/-- The scan of the format comes to a `%` right before its end. -/
def endsInPercent : List Byte → Bool
  | [] => false
  | [c] => c == percent
  | c :: d :: rest => if c = percent then endsInPercent rest else endsInPercent (d :: rest)

/-- The strings that the format asks for have at most 1023 characters. -/
def StringsFit : List Piece → List VarArg → Prop
  | .str :: rest, .str sval :: args => strlen sval < 1024 ∧ StringsFit rest args
  | .int :: rest, _ :: args => StringsFit rest args
  | .char _ :: rest, args => StringsFit rest args
  | _, _ => True

/-- The string at `fmt + p`. -/
def FormatAt (fmt : Nat → Byte) (p : Nat) (format : List Byte) : Prop :=
  (∀ c ∈ format, c ≠ 0) ∧ ∀ k ≤ format.length, fmt (p + k) = format.getD k 0

section Decimal

theorem itoaLoop_digits (fuel n : Nat) (small : n < 10 ^ fuel) (text : List Byte) :
    itoaLoop fuel (-(n : Int)) text =
      (Nat.digits 10 n).reverse.map (fun digit => BitVec.ofNat 8 (0x30 + digit)) ++ text := by
  induction fuel generalizing n text with
  | zero =>
    have zero : n = 0 := by omega
    rw [zero]
    rfl
  | succ fuel ih =>
    rw [itoaLoop]
    by_cases zero : n = 0
    · rw [zero]
      rfl
    · have quotient : (-(n : Int)).tdiv 10 = -((n / 10 : Nat) : Int) := by
        rw [Int.neg_tdiv, Int.natCast_ediv, Int.tdiv_eq_ediv_of_nonneg (by omega)]
        rfl
      have digit : (48 : Int) - (-(n : Int)).tmod 10 = ((0x30 + n % 10 : Nat) : Int) := by
        rw [Int.neg_tmod, Int.tmod_eq_emod_of_nonneg (by omega)]
        omega
      have shorter : n / 10 < 10 ^ fuel := by
        rw [Nat.pow_succ] at small
        omega
      rw [if_neg (by omega), quotient, digit, ih _ shorter, Nat.digits_def' (by decide) (by omega : 0 < n),
        List.reverse_cons, List.map_append, List.append_assoc, BitVec.ofInt_natCast]
      rfl

theorem itoa_decimal (ival : Word) : itoa ival.toInt = decimal ival.toInt := by
  have low := BitVec.le_toInt ival
  have high := BitVec.toInt_lt (x := ival)
  generalize ival.toInt = i at low high
  have loop : itoaLoop 10 (if 0 ≤ i then -i else i) [] =
      (Nat.digits 10 i.natAbs).reverse.map (fun digit => BitVec.ofNat 8 (0x30 + digit)) := by
    have magnitude : (if 0 ≤ i then -i else i) = -(i.natAbs : Int) := by
      split <;> omega
    rw [magnitude, itoaLoop_digits 10 i.natAbs (by omega), List.append_nil]
  unfold itoa decimal
  dsimp only
  rw [loop]
  by_cases zero : i = 0
  · rw [zero]
    rfl
  · have digits : (Nat.digits 10 i.natAbs).reverse.map (fun digit => BitVec.ofNat 8 (0x30 + digit)) ≠ [] := by
      intro none
      have empty := List.reverse_eq_nil_iff.mp (List.map_eq_nil_iff.mp none)
      exact zero (Int.natAbs_eq_zero.mp (Nat.digits_eq_nil_iff_eq_zero.mp empty))
    rw [if_neg digits, if_neg zero]
    by_cases sign : 0 ≤ i
    · rw [if_pos sign, if_neg (Int.not_lt.mpr sign), List.nil_append]
    · rw [if_neg sign, if_pos (Int.not_le.mp sign), List.singleton_append]

theorem print_eq (message : List Byte) : print message = message.take (min 1023 (strlen message)) := by
  have nonzero : ∀ c ∈ message.take (min 1023 (strlen message)), c ≠ 0 := by
    intro c member
    rw [← List.take_take] at member
    exact nonzero_of_mem_strlen (List.mem_of_mem_take member)
  unfold print strncpy
  dsimp only
  rw [strnlen_eq_min, strlen_append_zero nonzero, List.take_left]

theorem print_length (message : List Byte) : (print message).length = min 1023 (strlen message) := by
  have short := strlen_le message
  rw [print_eq, List.length_take]
  omega

theorem print_iff (message : List Byte) : print message = message.take (strlen message) ↔ strlen message < 1024 := by
  constructor
  · intro same
    have lengths := congrArg List.length same
    have short := strlen_le message
    rw [print_length, List.length_take] at lengths
    omega
  · intro fits
    rw [print_eq, Nat.min_eq_right (by omega)]

end Decimal

section Pieces
variable {args left : List VarArg} {rest : List Piece} {piece : Piece} {call next result : Printing}
  {output shown : List Byte}

/-- The conversion that the character after a `%` asks for. -/
def conversion (d : Byte) : Piece :=
  if d = conversionInt then .int else if d = conversionString then .str else .char d

/-- One round of the loop, once it has read what it is to do. -/
def Printing.perform (call : Printing) : Piece → Option Printing
  | .char c => some (call.emit [c])
  | .int =>
      match call.args with
      | .int ival :: args => some ({ call with args := args }.emit (print (itoa ival.toInt)))
      | _ => none
  | .str =>
      match call.args with
      | .str sval :: args => some ({ call with args := args }.emit (print sval))
      | _ => none

/-- The expansion as it reaches the terminal. -/
def shownExpansion (format : List Piece) (args : List VarArg) : Option (List Byte × List VarArg) :=
  expand (fun ival => print (itoa ival.toInt)) print format args

theorem shownExpansion_piece (supplied : shownExpansion (piece :: rest) call.args = some (shown, left)) :
    ∃ next first later, call.perform piece = some next ∧ next.output = call.output ++ first ∧
      next.reads = call.reads ∧ shownExpansion rest next.args = some (later, left) ∧ shown = first ++ later := by
  unfold shownExpansion at supplied ⊢
  cases piece with
  | char c =>
    rw [expand, Option.map_eq_some_iff] at supplied
    obtain ⟨⟨later, same⟩, found, rfl, rfl⟩ := supplied
    exact ⟨_, [c], later, rfl, rfl, rfl, found, rfl⟩
  | int =>
    unfold Printing.perform
    rcases given : call.args with _ | ⟨arg, others⟩
    · rw [given] at supplied
      cases supplied
    · rw [given] at supplied
      cases arg with
      | str sval => cases supplied
      | int ival =>
        rw [expand, Option.map_eq_some_iff] at supplied
        obtain ⟨⟨later, same⟩, found, rfl, rfl⟩ := supplied
        exact ⟨_, print (itoa ival.toInt), later, rfl, rfl, rfl, found, rfl⟩
  | str =>
    unfold Printing.perform
    rcases given : call.args with _ | ⟨arg, others⟩
    · rw [given] at supplied
      cases supplied
    · rw [given] at supplied
      cases arg with
      | int ival => cases supplied
      | str sval =>
        rw [expand, Option.map_eq_some_iff] at supplied
        obtain ⟨⟨later, same⟩, found, rfl, rfl⟩ := supplied
        exact ⟨_, print sval, later, rfl, rfl, rfl, found, rfl⟩

theorem Printing.perform_reads (ran : call.perform piece = some next) : next.reads = call.reads := by
  unfold Printing.perform at ran
  split at ran
  · cases ran
    rfl
  all_goals
    split at ran
    · cases ran
      rfl
    · cases ran

end Pieces

section Scan
variable {fmt : Nat → Byte} {format : List Byte} {args left : List VarArg} {call result : Printing} {p fuel : Nat}
  {c : Byte} {shown : List Byte}

theorem FormatAt.tail (held : FormatAt fmt p (c :: format)) : fmt p = c ∧ c ≠ 0 ∧ FormatAt fmt (p + 1) format := by
  obtain ⟨nonzero, same⟩ := held
  refine ⟨same 0 (Nat.zero_le _), nonzero c List.mem_cons_self,
    fun d member => nonzero d (List.mem_cons_of_mem _ member), fun k bound => ?_⟩
  have next := same (k + 1) (by rw [List.length_cons]; omega)
  rwa [Nat.add_comm k 1, ← Nat.add_assoc, Nat.add_comm 1 k, List.getD_cons_succ] at next

theorem FormatAt.ends (held : FormatAt fmt p []) : fmt p = 0 := held.2 0 (Nat.le_refl _)

theorem printfLoop_end (fuel : Nat) (call : Printing) (ended : fmt p = 0) :
    printfLoop fmt (fuel + 1) p call = some (call.read p) := if_pos ended

theorem printfLoop_char (fuel : Nat) (call : Printing) (nonzero : fmt p ≠ 0) (ordinary : fmt p ≠ percent) :
    printfLoop fmt (fuel + 1) p call = ((call.read p).perform (.char (fmt p))).bind (printfLoop fmt fuel (p + 1)) := by
  rw [printfLoop]
  dsimp only
  rw [if_neg nonzero, if_pos ordinary]
  rfl

theorem printfLoop_conversion (fuel : Nat) (call : Printing) (here : fmt p = percent) :
    printfLoop fmt (fuel + 1) p call = (((call.read p).read (p + 1)).perform (conversion (fmt (p + 1)))).bind
      (printfLoop fmt fuel (p + 2)) := by
  rw [printfLoop]
  dsimp only
  rw [if_neg (by rw [here]; decide), if_neg (not_not.mpr here)]
  unfold conversion
  split
  · unfold Printing.perform
    dsimp only
    split <;> rfl
  · split
    · unfold Printing.perform
      dsimp only
      split <;> rfl
    · rfl

/-- A result stays the same with more rounds. -/
theorem printfLoop_more {more : Nat} (le : fuel ≤ more) (ran : printfLoop fmt fuel p call = some result) :
    printfLoop fmt more p call = some result := by
  induction fuel generalizing p call more with
  | zero => cases ran
  | succ fuel ih =>
    obtain ⟨more, rfl⟩ : ∃ rest, more = rest + 1 := ⟨more - 1, by omega⟩
    by_cases ended : fmt p = 0
    · rw [printfLoop_end fuel call ended] at ran
      rw [printfLoop_end more call ended, ran]
    · by_cases here : fmt p = percent
      · rw [printfLoop_conversion fuel call here] at ran
        obtain ⟨next, performed, last⟩ := Option.bind_eq_some_iff.mp ran
        rw [printfLoop_conversion more call here, performed, Option.bind_some]
        exact ih (by omega) last
      · rw [printfLoop_char fuel call ended here] at ran
        obtain ⟨next, performed, last⟩ := Option.bind_eq_some_iff.mp ran
        rw [printfLoop_char more call ended here, performed, Option.bind_some]
        exact ih (by omega) last

theorem printfLoop_reads (ran : printfLoop fmt fuel p call = some result) :
    p ∈ result.reads ∧ ∀ place ∈ call.reads, place ∈ result.reads := by
  induction fuel generalizing p call with
  | zero => cases ran
  | succ fuel ih =>
    have here : p ∈ (call.read p).reads := List.mem_append_right _ (List.mem_singleton_self p)
    have old : ∀ place ∈ call.reads, place ∈ (call.read p).reads := fun place => List.mem_append_left _
    by_cases ended : fmt p = 0
    · rw [printfLoop_end fuel call ended] at ran
      cases ran
      exact ⟨here, old⟩
    · by_cases converts : fmt p = percent
      · rw [printfLoop_conversion fuel call converts] at ran
        obtain ⟨next, performed, last⟩ := Option.bind_eq_some_iff.mp ran
        have kept := (ih last).2
        rw [Printing.perform_reads performed] at kept
        have through : ∀ place ∈ (call.read p).reads, place ∈ result.reads :=
          fun place member => kept place (List.mem_append_left _ member)
        exact ⟨through p here, fun place member => through place (old place member)⟩
      · rw [printfLoop_char fuel call ended converts] at ran
        obtain ⟨next, performed, last⟩ := Option.bind_eq_some_iff.mp ran
        have kept := (ih last).2
        rw [Printing.perform_reads performed] at kept
        exact ⟨kept p here, fun place member => kept place (old place member)⟩

theorem printfLoop_open (held : FormatAt fmt p format) (ends : endsInPercent format = true)
    (ran : printfLoop fmt fuel p call = some result) : p + format.length + 1 ∈ result.reads := by
  induction format using endsInPercent.induct generalizing fuel p call with
  | case1 => cases ends
  | case2 c =>
    obtain ⟨here, _, rest⟩ := held.tail
    obtain rfl : c = percent := by simpa [endsInPercent] using ends
    cases fuel with
    | zero => cases ran
    | succ fuel =>
      rw [printfLoop_conversion fuel call here] at ran
      obtain ⟨next, _, last⟩ := Option.bind_eq_some_iff.mp ran
      exact (printfLoop_reads last).1
  | case3 d rest ih =>
    obtain ⟨here, _, after⟩ := held.tail
    obtain ⟨_, _, tail⟩ := after.tail
    rw [endsInPercent, if_pos rfl] at ends
    cases fuel with
    | zero => cases ran
    | succ fuel =>
      rw [printfLoop_conversion fuel call here] at ran
      obtain ⟨next, _, last⟩ := Option.bind_eq_some_iff.mp ran
      have read := ih tail ends last
      rw [List.length_cons, List.length_cons]
      rwa [show p + (rest.length + 1 + 1) + 1 = p + 2 + rest.length + 1 by omega]
  | case4 c d rest ordinary ih =>
    obtain ⟨here, nonzero, tail⟩ := held.tail
    rw [endsInPercent, if_neg ordinary] at ends
    cases fuel with
    | zero => cases ran
    | succ fuel =>
      rw [printfLoop_char fuel call (here ▸ nonzero) (here ▸ ordinary)] at ran
      obtain ⟨next, _, last⟩ := Option.bind_eq_some_iff.mp ran
      have read := ih tail ends last
      rw [List.length_cons]
      rwa [show p + ((d :: rest).length + 1) + 1 = p + 1 + (d :: rest).length + 1 by omega]

/-- What a call that goes on with `format` at `p` comes to. -/
def Shows (call result : Printing) (p : Nat) (format : List Byte) (shown : List Byte) (left : List VarArg) : Prop :=
  result.output = call.output ++ shown ∧ result.args = left ∧
    ∀ place ∈ result.reads, place ∈ call.reads ∨ place ≤ p + format.length

theorem printfLoop_closed_nil (held : FormatAt fmt p [])
    (supplied : shownExpansion [] call.args = some (shown, left)) (positive : 0 < fuel) :
    ∃ result, printfLoop fmt fuel p call = some result ∧ Shows call result p [] shown left := by
  obtain ⟨fuel, rfl⟩ : ∃ rest, fuel = rest + 1 := ⟨fuel - 1, by omega⟩
  cases supplied
  refine ⟨_, printfLoop_end fuel call held.ends, (List.append_nil _).symm, rfl, fun place member => ?_⟩
  rcases List.mem_append.mp member with old | new
  · exact Or.inl old
  · exact Or.inr (Nat.le_of_eq (List.mem_singleton.mp new))

theorem Shows.after {next : Printing} {first later rest : List Byte} {q : Nat}
    (output : next.output = call.output ++ first) (reads : ∀ place ∈ next.reads, place ∈ call.reads ∨ place ≤ q)
    (shows : Shows next result q rest later left) (whole : p + format.length = q + rest.length) :
    Shows call result p format (first ++ later) left := by
  refine ⟨?_, shows.2.1, fun place member => ?_⟩
  · rw [shows.1, output, List.append_assoc]
  · rcases shows.2.2 place member with old | new
    · exact (reads place old).imp_right (fun le => by omega)
    · exact Or.inr (by omega)

theorem Printing.mem_read (member : p ∈ (call.read fuel).reads) : p ∈ call.reads ∨ p = fuel :=
  (List.mem_append.mp member).imp_right List.mem_singleton.mp

theorem printfLoop_closed (held : FormatAt fmt p format) (closed : endsInPercent format = false)
    (supplied : shownExpansion (pieces format) call.args = some (shown, left)) (enough : format.length < fuel) :
    ∃ result, printfLoop fmt fuel p call = some result ∧ Shows call result p format shown left := by
  induction format using endsInPercent.induct generalizing fuel p call shown with
  | case1 => exact printfLoop_closed_nil held supplied enough
  | case2 c =>
    obtain ⟨here, nonzero, tail⟩ := held.tail
    have ordinary : c ≠ percent := by simpa [endsInPercent] using closed
    obtain ⟨fuel, rfl⟩ : ∃ rest, fuel = rest + 1 := ⟨fuel - 1, by omega⟩
    rw [pieces, if_neg ordinary] at supplied
    have supplied : shownExpansion [.char c] (call.read p).args = some (shown, left) := supplied
    obtain ⟨next, first, later, performed, output, reads, following, rfl⟩ := shownExpansion_piece supplied
    obtain ⟨result, ran, shows⟩ := printfLoop_closed_nil tail following
      (by rw [List.length_singleton] at enough; omega : 0 < fuel)
    rw [printfLoop_char fuel call (here ▸ nonzero) (here ▸ ordinary), here, performed, Option.bind_some]
    refine ⟨result, ran, shows.after output (fun place member => ?_) ?_⟩
    · rw [reads] at member
      exact (Printing.mem_read member).imp_right (fun same => by omega)
    · rfl
  | case3 d rest ih =>
    obtain ⟨here, _, after⟩ := held.tail
    obtain ⟨converted, _, tail⟩ := after.tail
    obtain ⟨fuel, rfl⟩ : ∃ rest, fuel = rest + 1 := ⟨fuel - 1, by omega⟩
    rw [endsInPercent, if_pos rfl] at closed
    rw [pieces, if_pos rfl] at supplied
    rw [List.length_cons, List.length_cons] at enough
    have supplied : shownExpansion (conversion d :: pieces rest) ((call.read p).read (p + 1)).args =
        some (shown, left) := supplied
    obtain ⟨next, first, later, performed, output, reads, following, rfl⟩ := shownExpansion_piece supplied
    obtain ⟨result, ran, shows⟩ := ih tail closed following (by omega : rest.length < fuel)
    rw [printfLoop_conversion fuel call here, converted, performed, Option.bind_some]
    refine ⟨result, ran, shows.after output (fun place member => ?_) ?_⟩
    · rw [reads] at member
      rcases Printing.mem_read member with earlier | same
      · exact (Printing.mem_read earlier).imp_right (fun same => by omega)
      · exact Or.inr (by omega)
    · rw [List.length_cons, List.length_cons]
      omega
  | case4 c d rest ordinary ih =>
    obtain ⟨here, nonzero, tail⟩ := held.tail
    obtain ⟨fuel, rfl⟩ : ∃ rest, fuel = rest + 1 := ⟨fuel - 1, by omega⟩
    rw [endsInPercent, if_neg ordinary] at closed
    rw [pieces, if_neg ordinary] at supplied
    have supplied : shownExpansion (.char c :: pieces (d :: rest)) (call.read p).args = some (shown, left) := supplied
    obtain ⟨next, first, later, performed, output, reads, following, rfl⟩ := shownExpansion_piece supplied
    obtain ⟨result, ran, shows⟩ := ih tail closed following
      (by rw [List.length_cons] at enough; omega : (d :: rest).length < fuel)
    rw [printfLoop_char fuel call (here ▸ nonzero) (here ▸ ordinary), here, performed, Option.bind_some]
    refine ⟨result, ran, shows.after output (fun place member => ?_) ?_⟩
    · rw [reads] at member
      exact (Printing.mem_read member).imp_right (fun same => by omega)
    · rw [List.length_cons (a := c)]
      omega

end Scan

section Expansion
variable {int : Word → List Byte} {rest : List Piece} {args left : List VarArg} {output : List Byte}

/-- What is shown is the expansion, but for strings that are cut. -/
theorem expand_print (supplied : expand int (fun sval => sval.take (strlen sval)) rest args = some (output, left)) :
    ∃ shown, expand int print rest args = some (shown, left) ∧ shown.length ≤ output.length ∧
      (shown = output ↔ StringsFit rest args) := by
  induction rest generalizing args output with
  | nil =>
    cases supplied
    exact ⟨[], rfl, Nat.le_refl _, iff_of_true rfl trivial⟩
  | cons piece rest ih =>
    cases piece with
    | char c =>
      rw [expand, Option.map_eq_some_iff] at supplied
      obtain ⟨⟨later, same⟩, found, rfl, rfl⟩ := supplied
      obtain ⟨shown, ran, short, whole⟩ := ih found
      refine ⟨c :: shown, by rw [expand, ran]; rfl, Nat.succ_le_succ short, ?_⟩
      rw [List.cons.injEq, StringsFit, ← whole]
      exact and_iff_right rfl
    | int =>
      rcases args with _ | ⟨⟨ival⟩ | ⟨sval⟩, args⟩
      · cases supplied
      · rw [expand, Option.map_eq_some_iff] at supplied
        obtain ⟨⟨later, same⟩, found, rfl, rfl⟩ := supplied
        obtain ⟨shown, ran, short, whole⟩ := ih found
        refine ⟨int ival ++ shown, by rw [expand, ran]; rfl, ?_, ?_⟩
        · rw [List.length_append, List.length_append]
          exact Nat.add_le_add_left short _
        · rw [List.append_cancel_left_eq, StringsFit, whole]
      · cases supplied
    | str =>
      rcases args with _ | ⟨⟨ival⟩ | ⟨sval⟩, args⟩
      · cases supplied
      · cases supplied
      · rw [expand, Option.map_eq_some_iff] at supplied
        obtain ⟨⟨later, same⟩, found, rfl, rfl⟩ := supplied
        obtain ⟨shown, ran, short, whole⟩ := ih found
        have cut : (print sval).length ≤ (sval.take (strlen sval)).length := by
          have inside := strlen_le sval
          rw [print_length, List.length_take]
          omega
        refine ⟨print sval ++ shown, by rw [expand, ran]; rfl, ?_, ?_⟩
        · rw [List.length_append, List.length_append]
          exact Nat.add_le_add cut short
        · rw [StringsFit, ← whole, ← print_iff]
          constructor
          · intro same
            -- neither part is longer than what it stands for
            have lengths := congrArg List.length same
            rw [List.length_append, List.length_append] at lengths
            exact List.append_inj same (by dsimp only at *; omega)
          · rintro ⟨first, second⟩
            rw [first, second]

theorem print_itoa (ival : Word) : print (itoa ival.toInt) = decimal ival.toInt := by
  have low := BitVec.le_toInt ival
  have high := BitVec.toInt_lt (x := ival)
  rw [itoa_decimal]
  generalize ival.toInt = i at low high
  have digits : (Nat.digits 10 i.natAbs).length ≤ 10 := (Nat.digits_length_le_iff (by decide) _).mpr (by omega)
  have nonzero : ∀ c ∈ decimal i, c ≠ 0 := by
    intro c member
    unfold decimal at member
    rcases List.mem_append.mp member with sign | digit
    · split at sign
      · exact List.mem_singleton.mp sign ▸ (by decide)
      · exact absurd sign List.not_mem_nil
    · split at digit
      · exact List.mem_singleton.mp digit ▸ (by decide)
      · obtain ⟨d, listed, rfl⟩ := List.mem_map.mp digit
        have small := Nat.digits_lt_base (by decide) (List.mem_reverse.mp listed)
        intro zero
        have value : (0x30 + d) % 2 ^ 8 = 0 := congrArg BitVec.toNat zero
        omega
  have short : (decimal i).length ≤ 11 := by
    unfold decimal
    rw [List.length_append]
    have sign : (if i < 0 then [0x2d] else [] : List Byte).length ≤ 1 := by
      split <;> simp
    have magnitude : (if i = 0 then [0x30] else (Nat.digits 10 i.natAbs).reverse.map
        (fun digit => BitVec.ofNat 8 (0x30 + digit)) : List Byte).length ≤ 10 := by
      split
      · simp
      · rw [List.length_map, List.length_reverse]
        exact digits
    omega
  rw [print_eq, strlen_of_nonzero nonzero, List.take_of_length_le (by omega)]

end Expansion

/-- `printf` emits this expansion of the format, leaves these arguments, and reads the format to its terminator
at most. -/
def Prints (fmt : Nat → Byte) (format : List Byte) (args : List VarArg) (output : List Byte) (left : List VarArg) :
    Prop :=
  ∃ fuel result, printf fuel fmt args = some result ∧ result.output = output ∧ result.args = left ∧
    ∀ place ∈ result.reads, place ≤ format.length

/-- With the arguments that the format asks for, `printf` does its work exactly if the format does not end in a `%`
that would start a conversion, and no string is longer than what `print` shows. -/
theorem printf_expands {fmt : Nat → Byte} {format output : List Byte} {args left : List VarArg}
    (held : FormatAt fmt 0 format) (supplied : expansion format args = some (output, left)) :
    Prints fmt format args output left ↔ endsInPercent format = false ∧ StringsFit (pieces format) args := by
  obtain ⟨shown, expanded, _, whole⟩ := expand_print supplied
  have supplied : shownExpansion (pieces format) (⟨[], args, []⟩ : Printing).args = some (shown, left) := by
    unfold shownExpansion
    rw [funext print_itoa]
    exact expanded
  constructor
  · rintro ⟨fuel, result, ran, emitted, _, inside⟩
    have closed : endsInPercent format = false := by
      by_contra ends
      have past := inside _ (printfLoop_open held (Bool.not_eq_false _ ▸ ends) ran)
      omega
    refine ⟨closed, whole.mp ?_⟩
    obtain ⟨other, finished, output, _⟩ := printfLoop_closed held closed supplied (Nat.lt_succ_self _)
    have same := printfLoop_more (Nat.le_max_left fuel (format.length + 1)) ran
    rw [printfLoop_more (Nat.le_max_right fuel (format.length + 1)) finished] at same
    rw [Option.some.inj same, emitted] at output
    exact output.symm
  · rintro ⟨closed, fits⟩
    obtain ⟨result, ran, output, consumed, inside⟩ := printfLoop_closed held closed supplied (Nat.lt_succ_self _)
    refine ⟨_, result, ran, output.trans (whole.mpr fits), consumed, fun place member => ?_⟩
    rcases inside place member with old | le
    · exact absurd old List.not_mem_nil
    · omega

/-- `"%i%%"` with the argument 42 -/
theorem printf_expands_percent :
    FormatAt (fun k => [percent, conversionInt, percent, percent].getD k 0) 0
        [percent, conversionInt, percent, percent] ∧
      Prints (fun k => [percent, conversionInt, percent, percent].getD k 0) [percent, conversionInt, percent, percent]
        [.int 42] [0x34, 0x32, percent] [] := by
  have held : FormatAt (fun k => [percent, conversionInt, percent, percent].getD k 0) 0
      [percent, conversionInt, percent, percent] := ⟨by decide, fun k _ => by rw [Nat.zero_add]⟩
  exact ⟨held, (printf_expands held (by decide)).mpr ⟨by decide, trivial⟩⟩

/-- `"100%"` is read past its end. -/
theorem printf_reads_past_end : ¬∀ fmt format args output left, FormatAt fmt 0 format →
    expansion format args = some (output, left) → Prints fmt format args output left := by
  intro claim
  have held : FormatAt (fun k => [0x31, 0x30, 0x30, percent].getD k 0) 0 [0x31, 0x30, 0x30, percent] :=
    ⟨by decide, fun k _ => by rw [Nat.zero_add]⟩
  obtain ⟨fuel, result, ran, _, _, inside⟩ := claim _ _ [] [0x31, 0x30, 0x30] [] held (by decide)
  exact absurd (inside _ (printfLoop_open held (by decide) ran)) (by decide)

end PeachOS.Stdlib
