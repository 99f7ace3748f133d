import PeachOS.Machine
import PeachOS.Lib.WriteLog

/-! `peachos_terminal_readline` of the user's `peachos.c`. `out` is a map from indices to characters, and what
the function stores is kept in the order of the stores. The keyboard is the list of what `peachos_getkey` returns
from then on; the function waits when the list ends. -/

namespace PeachOS
open WriteLog

abbrev carriageReturn : Byte := 13
abbrev backspaceKey : Byte := 0x08

/-- The first key, and what is returned after it. -/
def peachosGetkeyblock : List Byte → Option (Byte × List Byte)
  | [] => none
  | val :: polls => if val = 0 then peachosGetkeyblock polls else some (val, polls)

/-- The loop between two keys. -/
structure Reading where
  i : Int
  stores : List (Int × Byte)
  typed : List Byte

/-- The body of the loop for a key that is not the carriage return, with `i++`. -/
def readlineKey (outputWhileTyping : Bool) (key : Byte) (reading : Reading) : Reading :=
  let typed := if outputWhileTyping then reading.typed ++ [key] else reading.typed
  if key = backspaceKey ∧ 1 ≤ reading.i then
    { i := reading.i - 2 + 1, stores := reading.stores ++ [(reading.i - 1, 0)], typed := typed }
  else { i := reading.i + 1, stores := reading.stores ++ [(reading.i, key)], typed := typed }

/-- The loop, and whether it has ended. It goes round without a key in `peachos_getkeyblock`. -/
def readlineLoop (max : Int) (outputWhileTyping : Bool) : List Byte → Reading → Bool × Reading
  | [], reading => (decide (max - 1 ≤ reading.i), reading)
  | val :: polls, reading =>
      if max - 1 ≤ reading.i then (true, reading)
      else if val = 0 then readlineLoop max outputWhileTyping polls reading
      else if val = carriageReturn then (true, reading)
      else readlineLoop max outputWhileTyping polls (readlineKey outputWhileTyping val reading)

/-- The terminator is stored where the loop ended. -/
def peachosTerminalReadline (max : Int) (outputWhileTyping : Bool) (polls : List Byte) : Bool × Reading :=
  match readlineLoop max outputWhileTyping polls ⟨0, [], []⟩ with
  | (true, reading) => (true, { reading with stores := reading.stores ++ [(reading.i, 0)] })
  | (false, reading) => (false, reading)

/-- What a key makes of the line: a backspace takes the last character away, if there is one. -/
def editLine (line : List Byte) (key : Byte) : List Byte :=
  if key = backspaceKey then line.dropLast else line ++ [key]

/-- The line after the keys, up to a carriage return or `max - 1` characters, and whether it came to that. -/
def editedLine (max : Int) : List Byte → List Byte → Bool × List Byte
  | line, [] => (decide (max - 1 ≤ line.length), line)
  | line, val :: polls =>
      if max - 1 ≤ line.length then (true, line)
      else if val = 0 then editedLine max line polls
      else if val = carriageReturn then (true, line)
      else editedLine max (editLine line val) polls

/-- No backspace comes while the line is empty. -/
def BackspacesErase (max : Int) : List Byte → List Byte → Prop
  | _, [] => True
  | line, val :: polls =>
      if max - 1 ≤ line.length then True
      else if val = 0 then BackspacesErase max line polls
      else if val = carriageReturn then True
      else (val = backspaceKey → line ≠ []) ∧ BackspacesErase max (editLine line val) polls

/-- The condition is checked as the keys come. -/
instance decidableBackspacesErase (max : Int) : (line polls : List Byte) → Decidable (BackspacesErase max line polls)
  | _, [] => isTrue trivial
  | line, val :: polls =>
      have : Decidable (BackspacesErase max line polls) := decidableBackspacesErase max line polls
      have : Decidable (BackspacesErase max (editLine line val) polls) :=
        decidableBackspacesErase max (editLine line val) polls
      inferInstanceAs (Decidable (if max - 1 ≤ line.length then True
        else if val = 0 then BackspacesErase max line polls
        else if val = carriageReturn then True
        else (val = backspaceKey → line ≠ []) ∧ BackspacesErase max (editLine line val) polls))

/-- The characters of `out` before the index. -/
def lineIn (out : Int → Byte) (reading : Reading) : List Byte :=
  (List.range reading.i.toNat).map (fun k : Nat => replay out reading.stores k)

/-- What is promised of a call on these keys: it stores inside the buffer only, its line has no backspace in it,
and when it returns the line is the edited one, with the terminator after it. -/
def ReadsLine (max : Int) (outputWhileTyping : Bool) (out : Int → Byte) (polls : List Byte) : Prop :=
  let call := peachosTerminalReadline max outputWhileTyping polls
  (∀ store ∈ call.2.stores, 0 ≤ store.1 ∧ store.1 < max) ∧
    backspaceKey ∉ lineIn out call.2 ∧
    (call.1 = true → (editedLine max [] polls).1 = true ∧ lineIn out call.2 = (editedLine max [] polls).2 ∧
      replay out call.2.stores (lineIn out call.2).length = 0)

/-- `reading` has `line` in the buffer, and has stored nothing outside of it. -/
structure HoldsLine (max : Int) (out : Int → Byte) (line : List Byte) (reading : Reading) : Prop where
  index : reading.i = line.length
  short : (line.length : Int) ≤ max - 1
  line : lineIn out reading = line
  inside : ∀ store ∈ reading.stores, 0 ≤ store.1 ∧ store.1 < max

section Loop
variable {max : Int} {outputWhileTyping : Bool} {out : Int → Byte} {line polls : List Byte} {key : Byte}
  {reading : Reading}

theorem HoldsLine.read (held : HoldsLine max out line reading) {k : Nat} (bound : k < line.length) :
    replay out reading.stores (k : Int) = (line)[k] := by
  have same := held.line
  have short : k < (lineIn out reading).length := by rwa [same]
  have read : (lineIn out reading)[k] = replay out reading.stores (k : Int) := by
    simp only [lineIn, List.getElem_map, List.getElem_range]
  rw [← read]
  exact List.getElem_of_eq same short

theorem replay_snoc (out : Int → Byte) (stores : List (Int × Byte)) (index : Int) (value : Byte) :
    replay out (stores ++ [(index, value)]) = Function.update (replay out stores) index value := by
  rw [replay_append, replay_cons, replay_nil]

theorem lineIn_eq (index : reading.i = line.length)
    (same : ∀ k (bound : k < line.length), replay out reading.stores (k : Int) = (line)[k]) :
    lineIn out reading = line := by
  unfold lineIn
  rw [index, Int.toNat_natCast]
  apply List.ext_getElem
  · rw [List.length_map, List.length_range]
  · intro k _ bound
    rw [List.getElem_map, List.getElem_range, same k bound]

theorem HoldsLine.append (held : HoldsLine max out line reading) (room : (line.length : Int) < max - 1)
    (typed : List Byte) :
    HoldsLine max out (line ++ [key]) ⟨reading.i + 1, reading.stores ++ [(reading.i, key)], typed⟩ := by
  have index := held.index
  have length : (line ++ [key]).length = line.length + 1 := by rw [List.length_append, List.length_singleton]
  refine ⟨?_, ?_, lineIn_eq ?_ ?_, ?_⟩
  · dsimp only
    omega
  · omega
  · dsimp only
    omega
  · intro k bound
    rw [replay_snoc, index]
    by_cases last : k = line.length
    · subst last
      rw [Function.update_self, List.getElem_concat_length rfl]
    · have earlier : k < line.length := by omega
      rw [Function.update_of_ne (by exact_mod_cast last), held.read earlier, List.getElem_append_left earlier]
  · intro store member
    rcases List.mem_append.mp member with old | new
    · exact held.inside store old
    · rw [List.mem_singleton.mp new]
      dsimp only
      omega

theorem HoldsLine.erase (held : HoldsLine max out line reading) (nonempty : line ≠ []) (typed : List Byte) :
    HoldsLine max out line.dropLast ⟨reading.i - 2 + 1, reading.stores ++ [(reading.i - 1, 0)], typed⟩ := by
  have index := held.index
  have short := held.short
  have positive := List.length_pos_iff.mpr nonempty
  have length : line.dropLast.length = line.length - 1 := List.length_dropLast
  refine ⟨?_, ?_, lineIn_eq ?_ ?_, ?_⟩
  · dsimp only
    omega
  · omega
  · dsimp only
    omega
  · intro k bound
    rw [replay_snoc, Function.update_of_ne (by omega), held.read (by omega), List.getElem_dropLast]
  · intro store member
    rcases List.mem_append.mp member with old | new
    · exact held.inside store old
    · rw [List.mem_singleton.mp new]
      dsimp only
      omega

theorem HoldsLine.press (held : HoldsLine max out line reading) (room : (line.length : Int) < max - 1)
    (erases : key = backspaceKey → line ≠ []) :
    HoldsLine max out (editLine line key) (readlineKey outputWhileTyping key reading) := by
  have index := held.index
  unfold editLine readlineKey
  by_cases back : key = backspaceKey
  · have positive := List.length_pos_iff.mpr (erases back)
    rw [if_pos back, if_pos ⟨back, by omega⟩]
    exact held.erase (erases back) _
  · rw [if_neg back, if_neg (fun both => back both.1)]
    exact held.append room _

theorem HoldsLine.press_empty (held : HoldsLine max out [] reading) (room : 0 < max - 1)
    (outputWhileTyping : Bool) :
    HoldsLine max out [backspaceKey] (readlineKey outputWhileTyping backspaceKey reading) := by
  have index : reading.i = 0 := held.index
  unfold readlineKey
  rw [if_neg (fun both => by omega)]
  show HoldsLine max out ([] ++ [backspaceKey]) _
  exact held.append room _

theorem backspace_notMem_editLine (clean : backspaceKey ∉ line) : backspaceKey ∉ editLine line key := by
  unfold editLine
  split
  · exact fun member => clean (List.dropLast_subset _ member)
  next ordinary =>
    intro member
    rcases List.mem_append.mp member with old | new
    · exact clean old
    · exact ordinary (List.mem_singleton.mp new).symm

/-- The loop edits the line. -/
theorem HoldsLine.loop (held : HoldsLine max out line reading) (clean : backspaceKey ∉ line)
    (erases : BackspacesErase max line polls) (outputWhileTyping : Bool) :
    (readlineLoop max outputWhileTyping polls reading).1 = (editedLine max line polls).1 ∧
      HoldsLine max out (editedLine max line polls).2 (readlineLoop max outputWhileTyping polls reading).2 ∧
      backspaceKey ∉ (editedLine max line polls).2 := by
  induction polls generalizing line reading with
  | nil =>
    refine ⟨?_, held, clean⟩
    rw [readlineLoop, editedLine, held.index]
  | cons val polls ih =>
    unfold BackspacesErase at erases
    rw [readlineLoop, editedLine, held.index]
    split
    next => exact ⟨rfl, held, clean⟩
    next room =>
      rw [if_neg room] at erases
      split
      next idle =>
        rw [if_pos idle] at erases
        exact ih held clean erases
      next pressed =>
        rw [if_neg pressed] at erases
        split
        next => exact ⟨rfl, held, clean⟩
        next ordinary =>
          rw [if_neg ordinary] at erases
          exact ih (held.press (Int.not_le.mp room) erases.1) (backspace_notMem_editLine clean) erases.2

/-- Where a backspace comes on the empty line, the line is a backspace from then on. -/
theorem HoldsLine.loop_stores (held : HoldsLine max out line reading)
    (kept : ¬BackspacesErase max line polls) (outputWhileTyping : Bool) :
    ∃ read, read <+: polls ∧ backspaceKey ∈ lineIn out (readlineLoop max outputWhileTyping read reading).2 := by
  induction polls generalizing line reading with
  | nil => exact absurd trivial kept
  | cons val polls ih =>
    have index := held.index
    unfold BackspacesErase at kept
    by_cases full : max - 1 ≤ line.length
    · rw [if_pos full] at kept
      exact absurd trivial kept
    rw [if_neg full] at kept
    by_cases idle : val = 0
    · rw [if_pos idle] at kept
      obtain ⟨read, inside, stored⟩ := ih held kept
      refine ⟨val :: read, List.cons_prefix_cons.mpr ⟨rfl, inside⟩, ?_⟩
      rw [readlineLoop, if_neg (by omega), if_pos idle]
      exact stored
    rw [if_neg idle] at kept
    by_cases ends : val = carriageReturn
    · rw [if_pos ends] at kept
      exact absurd trivial kept
    rw [if_neg ends] at kept
    by_cases here : val = backspaceKey ∧ line = []
    · obtain ⟨rfl, rfl⟩ := here
      refine ⟨[backspaceKey], List.cons_prefix_cons.mpr ⟨rfl, List.nil_prefix⟩, ?_⟩
      have stored := held.press_empty (by simpa using full) outputWhileTyping
      rw [readlineLoop, if_neg (by omega), if_neg idle, if_neg ends, readlineLoop, stored.line]
      exact List.mem_singleton_self _
    · have erases : val = backspaceKey → line ≠ [] := fun back empty => here ⟨back, empty⟩
      obtain ⟨read, inside, stored⟩ := ih (held.press (by omega) erases) (fun rest => kept ⟨erases, rest⟩)
      refine ⟨val :: read, List.cons_prefix_cons.mpr ⟨rfl, inside⟩, ?_⟩
      rw [readlineLoop, if_neg (by omega), if_neg idle, if_neg ends]
      exact stored

theorem BackspacesErase.shorter {read : List Byte} (erases : BackspacesErase max line polls)
    (inside : read <+: polls) : BackspacesErase max line read := by
  induction read generalizing line polls with
  | nil => trivial
  | cons val read ih =>
    obtain ⟨rest, rfl⟩ := inside
    rw [List.cons_append] at erases
    unfold BackspacesErase at erases ⊢
    split
    · trivial
    next room =>
      rw [if_neg room] at erases
      split
      next idle =>
        rw [if_pos idle] at erases
        exact ih erases (List.prefix_append _ _)
      next pressed =>
        rw [if_neg pressed] at erases
        split
        · trivial
        next ordinary =>
          rw [if_neg ordinary] at erases
          exact ⟨erases.1, ih erases.2 (List.prefix_append _ _)⟩

theorem lineIn_terminated (out : Int → Byte) (reading : Reading) :
    lineIn out { reading with stores := reading.stores ++ [(reading.i, 0)] } = lineIn out reading := by
  unfold lineIn
  apply List.map_congr_left
  intro k member
  have bound : k < reading.i.toNat := List.mem_range.mp member
  dsimp only
  rw [replay_snoc, Function.update_of_ne (by omega)]

theorem HoldsLine.terminator (held : HoldsLine max out line reading) :
    replay out (reading.stores ++ [(reading.i, 0)]) line.length = 0 ∧
      ∀ store ∈ reading.stores ++ [(reading.i, 0)], 0 ≤ store.1 ∧ store.1 < max := by
  have index := held.index
  have short := held.short
  refine ⟨by rw [replay_snoc, index, Function.update_self], ?_⟩
  intro store member
  rcases List.mem_append.mp member with old | new
  · exact held.inside store old
  · rw [List.mem_singleton.mp new]
    dsimp only
    omega

theorem HoldsLine.start (out : Int → Byte) (positive : 1 ≤ max) : HoldsLine max out [] ⟨0, [], []⟩ where
  index := rfl
  short := by
    rw [List.length_nil]
    omega
  line := rfl
  inside := fun store member => absurd member List.not_mem_nil

theorem lineIn_terminalReadline (max : Int) (outputWhileTyping : Bool) (out : Int → Byte) (polls : List Byte) :
    lineIn out (peachosTerminalReadline max outputWhileTyping polls).2 =
      lineIn out (readlineLoop max outputWhileTyping polls ⟨0, [], []⟩).2 := by
  unfold peachosTerminalReadline
  rcases readlineLoop max outputWhileTyping polls ⟨0, [], []⟩ with ⟨ended, reading⟩
  cases ended with
  | true => exact lineIn_terminated out reading
  | false => rfl

theorem BackspacesErase.readsLine (erases : BackspacesErase max [] polls) (positive : 1 ≤ max)
    (outputWhileTyping : Bool) (out : Int → Byte) : ReadsLine max outputWhileTyping out polls := by
  have kept := lineIn_terminalReadline max outputWhileTyping out polls
  obtain ⟨same, held, clean⟩ := (HoldsLine.start out positive).loop List.not_mem_nil erases outputWhileTyping
  unfold ReadsLine
  dsimp only
  rw [kept, held.line]
  unfold peachosTerminalReadline
  generalize readlineLoop max outputWhileTyping polls ⟨0, [], []⟩ = result at same held
  obtain ⟨ended, reading⟩ := result
  obtain rfl : ended = (editedLine max [] polls).1 := same
  cases stopped : (editedLine max [] polls).1 with
  | true => exact ⟨held.terminator.2, clean, fun _ => ⟨rfl, rfl, held.terminator.1⟩⟩
  | false => exact ⟨held.inside, clean, fun yes => absurd yes Bool.false_ne_true⟩

end Loop

/-- The call keeps its promise on a sequence of keys, and on the way to its end, exactly if no backspace comes
while the line is empty. -/
theorem peachosTerminalReadline_edits {max : Int} (room : 2 ≤ max) (outputWhileTyping : Bool) (out : Int → Byte)
    (polls : List Byte) :
    (∀ read, read <+: polls → ReadsLine max outputWhileTyping out read) ↔ BackspacesErase max [] polls := by
  constructor
  · intro reads
    by_contra kept
    obtain ⟨read, inside, stored⟩ := (HoldsLine.start out (by omega)).loop_stores kept outputWhileTyping
    have clean := (reads read inside).2.1
    rw [lineIn_terminalReadline] at clean
    exact clean stored
  · exact fun erases read inside => (erases.shorter inside).readsLine (by omega) outputWhileTyping out

theorem peachosTerminalReadline_edits_typo : (2 : Int) ≤ 1024 ∧
    ∀ read, read <+: [0x6c, 0x73, 0x78, backspaceKey, carriageReturn] → ReadsLine 1024 true (fun _ => 0) read :=
  ⟨by decide, (peachosTerminalReadline_edits (by decide) true (fun _ => 0) _).mpr (by decide)⟩

/-- A backspace as the first key is in the line that is returned. -/
theorem peachosTerminalReadline_backspace_stored :
    ¬∀ max, 2 ≤ max → ∀ polls : List Byte, (∀ val ∈ polls, val ≠ 0) → ReadsLine max true (fun _ => 0) polls := by
  intro reads
  have stored : backspaceKey ∈ lineIn (fun _ => 0) (peachosTerminalReadline 1024 true [8, 13]).2 := by decide
  exact (reads 1024 (by decide) [8, 13] (by decide)).2.1 stored

end PeachOS
