import PeachOS.ParseRuns
import PeachOS.Printf

/-! `parsenexec` of the user's `shell.c`: the first word of a line is compared with the names of the built-ins. -/

namespace PeachOS.Stdlib
open ByteMemory

inductive Builtin where
  | cd
  | ls
  | pwd
  | help
  deriving DecidableEq

def builtins : List Builtin := [.cd, .ls, .pwd, .help]

/-- `cd`, `ls`, `pwd` and `-h` -/
def Builtin.name : Builtin → List Byte
  | .cd => [0x63, 0x64]
  | .ls => [0x6c, 0x73]
  | .pwd => [0x70, 0x77, 0x64]
  | .help => [0x2d, 0x68]

def characters (text : String) : List Byte := text.toList.map (fun c => BitVec.ofNat 8 c.toNat)

/-- What a built-in prints, message by message. -/
def Builtin.messages (currentDirectory : List Byte) : Builtin → List (List Byte)
  | .cd => [characters "\nChanging directory..."]
  | .ls => [characters "\n filename          date            permissions     "]
  | .pwd => [characters "\n", currentDirectory]
  | .help => [characters "\nls - list directory contents\n", characters "pwd - print current working directory\n",
      characters "cd - change current directory to the given directory\n"]

/-- At a difference the value is that of an assignment, the character of `s2`. -/
def istrncmp (s1 : List Byte) (bytes : Bytes) (s2 : Addr) : (n : Nat) → Int
  | 0 => 0
  | n + 1 =>
      let u1 := s1.headD 0
      let u2 := bytes s2
      if u1 ≠ u2 ∧ tolower u1 ≠ tolower u2 then u2.toNat
      else if u1 = 0 then 0
      else istrncmp s1.tail bytes (s2 + 1) n

/-- The pointers that the comparisons of a call read through, the built-ins it runs and what they print. -/
structure Executed where
  dereferenced : List Addr
  ran : List Builtin
  output : List Byte

def parsenexec (fuel : Nat) (currentDirectory : List Byte) (call : ParseCall) (state : Tokenizer) :
    Option (Executed × Tokenizer) :=
  match peachosParseCommand fuel { call with max := 1024 } state with
  | none => none
  | some (commands, after) =>
      let ran := builtins.filter (fun builtin => istrncmp builtin.name after.bytes commands 1025 = 0)
      some (⟨builtins.map (fun _ => commands), ran,
        ran.flatMap (fun builtin => (builtin.messages currentDirectory).flatMap print)⟩, after)

/-- The first word of the line, when it has one, is that name up to case. -/
def Names (text : List Byte) (builtin : Builtin) : Prop :=
  ∃ word later, words text = word :: later ∧ word.map tolower = builtin.name.map tolower

/-- The built-in that the line names is run and no other, and no null list is gone into. -/
def Dispatches (text : List Byte) (executed : Executed) : Prop :=
  (∀ builtin, builtin ∈ executed.ran ↔ Names text builtin) ∧ 0 ∉ executed.dereferenced

/-- There is a structure for a word in the first 1024 characters of the line, and each name that begins with what is
there of the line's first word is that word. -/
def NamesWholly (call : ParseCall) (text : List Byte) : Prop :=
  (call.malloc 0).ptr ≠ 0 ∧ ∃ word later, words (text.take (sizeofScommand - 1)) = word :: later ∧
    ∀ builtin : Builtin, word.map tolower <+: builtin.name.map tolower → Names text builtin

section Compare
variable {bytes : Bytes} {name word : List Byte} {s2 : Addr}

theorem tolower_zero_iff : ∀ c : Byte, tolower c = tolower 0 ↔ c = 0 := by decide +kernel

theorem istrncmp_eq_zero_iff (held : HoldsString bytes s2 word) (nonzero : ∀ c ∈ name, c ≠ 0) {n : Nat}
    (short : name.length < n) : istrncmp name bytes s2 n = 0 ↔ word.map tolower <+: name.map tolower := by
  induction name generalizing word s2 n with
  | nil =>
    obtain ⟨n, rfl⟩ : ∃ rest, n = rest + 1 := ⟨n - 1, by omega⟩
    rw [istrncmp, List.headD_nil]
    cases word with
    | nil =>
      rw [held.ends, if_neg (fun both => both.1 rfl), if_pos rfl]
      exact iff_of_true rfl List.nil_prefix
    | cons c rest =>
      have other : c ≠ 0 := held.1 c List.mem_cons_self
      rw [held.tail.1, if_pos ⟨other.symm, fun same => other ((tolower_zero_iff c).mp same.symm)⟩]
      refine iff_of_false (fun zero => other (BitVec.eq_of_toNat_eq ?_)) (fun begins => ?_)
      · exact Int.natCast_eq_zero.mp zero
      · exact absurd (List.prefix_nil.mp begins) (List.cons_ne_nil _ _)
  | cons a name ih =>
    obtain ⟨n, rfl⟩ : ∃ rest, n = rest + 1 := ⟨n - 1, by omega⟩
    obtain ⟨first, later⟩ := List.forall_mem_cons.mp nonzero
    rw [List.length_cons] at short
    rw [istrncmp, List.headD_cons, List.tail_cons]
    cases word with
    | nil =>
      rw [held.ends, if_pos ⟨first, fun same => first ((tolower_zero_iff a).mp same)⟩]
      exact iff_of_true rfl List.nil_prefix
    | cons c rest =>
      have other : c ≠ 0 := held.1 c List.mem_cons_self
      rw [held.tail.1, List.map_cons, List.map_cons, List.cons_prefix_cons]
      by_cases same : tolower a = tolower c
      · rw [if_neg (fun both => both.2 same), if_neg first, ih held.tail.2 later (by omega)]
        exact (and_iff_right same.symm).symm
      · have different : a ≠ c := fun equal => same (congrArg tolower equal)
        rw [if_pos ⟨different, same⟩]
        refine iff_of_false (fun zero => other (BitVec.eq_of_toNat_eq ?_)) (fun both => same both.1.symm)
        exact Int.natCast_eq_zero.mp zero

/-- The cut of an argument is longer than any name. -/
theorem cut_begins (builtin : Builtin) (word : List Byte) :
    (word.take (sizeofArgument - 1)).map tolower <+: builtin.name.map tolower ↔
      word.map tolower <+: builtin.name.map tolower := by
  have short : builtin.name.length ≤ 3 := by cases builtin <;> decide
  rcases Nat.lt_or_ge word.length sizeofArgument with fits | long
  · rw [List.take_of_length_le (Nat.le_sub_one_of_lt fits)]
  · refine iff_of_false (fun begins => ?_) (fun begins => ?_)
    · have bound := begins.length_le
      rw [List.length_map, List.length_map, List.length_take] at bound
      unfold sizeofArgument at *
      omega
    · have bound := begins.length_le
      rw [List.length_map, List.length_map] at bound
      unfold sizeofArgument at *
      omega

theorem Names.begins {text : List Byte} {later : List (List Byte)} {builtin : Builtin} {n : Nat}
    (names : Names text builtin) (first : words (text.take n) = word :: later) :
    word.map tolower <+: builtin.name.map tolower := by
  obtain ⟨whole, others, split, same⟩ := names
  obtain ⟨whole', others', split', begins⟩ := words_take first
  rw [split, List.cons.injEq] at split'
  rw [← same, split'.1]
  exact begins.map tolower

theorem mem_ran {builtin : Builtin} :
    builtin ∈ builtins.filter (fun builtin => istrncmp builtin.name bytes s2 1025 = 0) ↔
      istrncmp builtin.name bytes s2 1025 = 0 := by
  have listed : builtin ∈ builtins := by cases builtin <;> decide
  rw [List.mem_filter, decide_eq_true_eq]
  exact and_iff_right listed

theorem ran_iff (held : HoldsString bytes s2 (word.take (sizeofArgument - 1))) (builtin : Builtin) :
    builtin ∈ builtins.filter (fun builtin => istrncmp builtin.name bytes s2 1025 = 0) ↔
      word.map tolower <+: builtin.name.map tolower := by
  have nonzero : ∀ c ∈ builtin.name, c ≠ 0 := by cases builtin <;> decide
  have short : builtin.name.length < 1025 := by cases builtin <;> decide
  rw [mem_ran, istrncmp_eq_zero_iff held nonzero short, cut_begins]

end Compare

section Lines
variable {fuel : Nat} (currentDirectory : List Byte)

theorem ParseCall.Meets.withMax {call : ParseCall} {bytes : Bytes} {text : List Byte} (meets : call.Meets bytes text)
    (max : Word) : { call with max := max }.Meets bytes text where
  held := meets.held
  stack := meets.stack
  apart := meets.apart
  serves := ⟨meets.serves.apart, meets.serves.keeps⟩

theorem parsenexec_line (enough : sizeofScommand ≤ fuel) (entry : ParseEntry) :
    ∃ executed after, parsenexec fuel currentDirectory entry.call ⟨entry.bytes, 0⟩ = some (executed, after) ∧
      (Dispatches entry.text executed ↔ NamesWholly entry.call entry.text) ∧
      (entry.call.Complete entry.text → after.sp = 0) := by
  have accepted : (1024 : Word).toNat < sizeofScommand := by decide
  obtain ⟨root, after, parsed, returned, ready⟩ := (entry.meets.withMax 1024).parses accepted enough
  unfold parsenexec
  rw [parsed]
  refine ⟨_, after, rfl, ?_, ready.mpr⟩
  -- every comparison reads through the root
  have through : (0 : Addr) ∈ builtins.map (fun _ => root) ↔ root = 0 := by
    rw [List.map_const', List.mem_replicate]
    exact ⟨fun member => member.2.symm, fun null => ⟨by decide, null.symm⟩⟩
  unfold Dispatches NamesWholly
  rw [through]
  unfold ParseCall.Returns commandArguments at returned
  rcases first : words (entry.text.take (sizeofScommand - 1)) with _ | ⟨word, later⟩
  · rw [first] at returned
    exact iff_of_false (fun both => both.2 returned) (fun ⟨_, _, _, split, _⟩ => by cases split)
  · rw [first, List.map_cons, served] at returned
    dsimp only at returned
    by_cases failed : (entry.call.malloc 0).ptr = 0
    · rw [if_pos failed] at returned
      exact iff_of_false (fun both => both.2 returned) (fun wholly => wholly.1 failed)
    · rw [if_neg failed] at returned
      obtain ⟨nonnull, _, _, held, _⟩ := returned
      constructor
      · intro dispatched
        refine ⟨failed, word, later, rfl, fun builtin begins => ?_⟩
        exact (dispatched.1 builtin).mp ((ran_iff held builtin).mpr begins)
      · rintro ⟨_, word', later', split, wholly⟩
        rw [List.cons.injEq] at split
        refine ⟨fun builtin => (ran_iff held builtin).trans ⟨?_, fun names => names.begins first⟩, nonnull⟩
        rw [split.1]
        exact wholly builtin

end Lines

/-- After lines whose allocations were all served, the next line is dispatched as it should exactly if its first word
is in a structure and is, as far as the first 1024 characters have it, the beginning of no name but its own. -/
theorem parsenexec_dispatches {fuel : Nat} (enough : sizeofScommand ≤ fuel) (currentDirectory : List Byte)
    (lines : List ParseEntry) (complete : ∀ entry ∈ lines, entry.call.Complete entry.text) (next : ParseEntry) :
    EachCall (parsenexec fuel currentDirectory)
      (fun entry executed _ => Dispatches entry.text executed ↔ NamesWholly entry.call entry.text) 0
      (lines ++ [next]) :=
  EachCall.of_ready (fun entry => parsenexec_line currentDirectory enough entry) complete next

def strangeLine : ParseEntry :=
  ⟨letterCall 0x1000 1024 0x8000, letterBytes strangeLetter 0x1000, [strangeLetter],
    letterCall_meets commandArguments_strange (by decide) (by decide) (by decide) 1024 (Or.inr rfl)⟩

/-- A line that names no built-in runs none, and so does the next one. -/
theorem parsenexec_dispatches_strange : sizeofScommand ≤ 1025 ∧
    EachCall (parsenexec 1025 []) (fun entry executed _ => Dispatches entry.text executed) 0
      [strangeLine, strangeLine] := by
  have complete : strangeLine.call.Complete strangeLine.text := by
    intro k _
    show (0x8000 : Addr) ≠ 0
    decide
  have wholly : NamesWholly strangeLine.call strangeLine.text := by
    refine ⟨by decide, [strangeLetter], [], by decide, fun builtin begins => absurd begins ?_⟩
    cases builtin <;> decide
  obtain ⟨first, after, run, dispatches, second, last, again, too, rest⟩ :=
    parsenexec_dispatches (Nat.le_refl sizeofScommand) [] [strangeLine] (List.forall_mem_singleton.mpr complete) strangeLine
  exact ⟨Nat.le_refl _, first, after, run, dispatches.mpr wholly, second, last, again, too.mpr wholly, rest⟩

/-- The line `l` runs `ls`. -/
theorem parsenexec_runs_beginning : ¬∀ entry : ParseEntry, ∃ executed after,
    parsenexec 1025 [] entry.call ⟨entry.bytes, 0⟩ = some (executed, after) ∧ Dispatches entry.text executed := by
  intro each
  obtain ⟨executed, after, ended, dispatched⟩ := each (letterLine 1024)
  obtain ⟨executed', after', ended', same, _⟩ := parsenexec_line [] (Nat.le_refl sizeofScommand) (letterLine 1024)
  obtain ⟨rfl, rfl⟩ := Prod.mk.inj (Option.some.inj (ended.symm.trans ended'))
  obtain ⟨_, word, later, first, wholly⟩ := same.mp dispatched
  have text : words ((letterLine 1024).text.take (sizeofScommand - 1)) = [[letter]] := by decide
  rw [text, List.cons.injEq] at first
  obtain ⟨whole, others, split, named⟩ := wholly .ls (by rw [← first.1]; decide)
  have line : words (letterLine 1024).text = [[letter]] := by decide
  rw [line, List.cons.injEq] at split
  rw [← split.1] at named
  exact absurd named (by decide)

end PeachOS.Stdlib
