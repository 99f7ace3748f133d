import PeachOS.TerminalRuns

/-! Where the characters of a text go on a terminal, with other shells' texts in between. -/

namespace PeachOS
open Program

/-- The characters that have a sign in the ASCII code. -/
def Printable (c : Byte) : Prop := 0x20 ≤ c.toNat ∧ c.toNat ≤ 0x7E

/-- The cells of the grid, row by row. -/
abbrev gridCells : Nat := vgaWidth * vgaHeight

/-- The position behind a character: the next cell, or the start of the next row. -/
def positionAfter (position : Nat) (c : Byte) : Nat :=
  if c = 10 then (position / vgaWidth + 1) * vgaWidth else position + 1

/-- The position of character `i` of a text that starts at `start`, or of its end. -/
def layoutPosition (start : Nat) (text : List Byte) (i : Nat) : Nat := (text.take i).foldl positionAfter start

/-- The text stands where it is laid out, and nothing else has changed. -/
structure LaidOut (before after : View) (text : List Byte) : Prop where
  shown : ∀ i c, text[i]? = some c → c ≠ 10 →
    after.cells (layoutPosition before.cursor.cell text i) = peachosColor ++ c
  others : ∀ cell, (∀ i c, text[i]? = some c → c ≠ 10 → cell ≠ layoutPosition before.cursor.cell text i) →
    after.cells cell = before.cells cell
  row : after.cursor.terminalRow.toNat = layoutPosition before.cursor.cell text text.length / vgaWidth
  col : after.cursor.terminalCol.toNat = layoutPosition before.cursor.cell text text.length % vgaWidth

/-- The text fits: it starts and ends in the grid, and no position on the way is behind the last. -/
structure View.Room (view : View) (text : List Byte) : Prop where
  inside : view.cursor.InGrid
  fits : layoutPosition view.cursor.cell text text.length < gridCells

/-- A call of `print`, or of `terminal_writechar` when the string is one character. -/
structure PrintCall where
  task : Addr
  str : List Byte

def printAll : List PrintCall → KernelProg Unit
  | [] => pure ()
  | call :: rest => do
      taskSwitch call.task
      print call.str
      printAll rest

def outputsOf (calls : List PrintCall) : List Output :=
  calls.flatMap (fun call => call.str.map (fun c => ⟨call.task, c, peachosColor⟩))

def Kernel.textOf (kernel : Kernel) (shell : Addr) (calls : List PrintCall) : List Byte :=
  (calls.filter (fun call => kernel.shellOf call.task == shell)).flatMap PrintCall.str

section Layout
variable {view : View} {cursor : Terminal} {text : List Byte} {c : Byte} {start : Nat}

theorem layoutPosition_cons (start : Nat) (c : Byte) (text : List Byte) (i : Nat) :
    layoutPosition start (c :: text) (i + 1) = layoutPosition (positionAfter start c) text i := rfl

theorem lt_positionAfter (start : Nat) (c : Byte) : start < positionAfter start c := by
  unfold positionAfter vgaWidth
  split <;> omega

theorem le_layoutPosition (start : Nat) (text : List Byte) (i : Nat) : start ≤ layoutPosition start text i := by
  induction text generalizing start i with
  | nil =>
    unfold layoutPosition
    rw [List.take_nil]
    exact Nat.le_refl _
  | cons c text ih =>
    cases i with
    | zero => exact Nat.le_refl _
    | succ i => exact (Nat.le_of_lt (lt_positionAfter start c)).trans (ih _ i)

/-- In the grid, the code's cursor goes through the positions of the layout. -/
theorem Terminal.InGrid.next_cell (inside : cursor.InGrid) (notBackspace : c ≠ 0x08)
    (fits : positionAfter cursor.cell c < gridCells) :
    (cursor.next c).InGrid ∧ (cursor.next c).cell = positionAfter cursor.cell c := by
  have row := inside.row
  have col := inside.col
  unfold positionAfter Terminal.cell gridCells vgaWidth vgaHeight at fits
  unfold vgaWidth at col
  unfold vgaHeight at row
  have below : (cursor.terminalRow + 1).toNat = cursor.terminalRow.toNat + 1 := by bv_omega
  have right : (cursor.terminalCol + 1).toNat = cursor.terminalCol.toNat + 1 := by bv_omega
  unfold Terminal.next
  by_cases newline : c = 10
  · rw [if_pos newline] at fits
    have rows : (cursor.terminalRow.toNat * 80 + cursor.terminalCol.toNat) / 80 = cursor.terminalRow.toNat := by omega
    rw [rows] at fits
    rw [if_pos newline]
    refine ⟨inside.newline_iff.mpr (by unfold vgaHeight; omega), ?_⟩
    unfold positionAfter Terminal.cell vgaWidth
    rw [if_pos newline, rows]
    show (cursor.terminalRow + 1).toNat * 80 + 0 = _
    rw [below, Nat.add_zero]
  · rw [if_neg newline] at fits
    rw [if_neg newline, if_neg notBackspace]
    refine ⟨inside.advance_iff.mpr (by unfold vgaHeight vgaWidth; omega), ?_⟩
    unfold Terminal.advance positionAfter Terminal.cell vgaWidth
    rw [if_neg newline, right]
    by_cases full : 80 ≤ cursor.terminalCol.toNat + 1
    · rw [if_pos full]
      show (cursor.terminalRow + 1).toNat * 80 + 0 = _
      omega
    · rw [if_neg full]
      show cursor.terminalRow.toNat * 80 + (cursor.terminalCol + 1).toNat = _
      omega

theorem terminalMakeChar_ascii : ∀ c : Byte, c.toNat < 128 → terminalMakeChar c peachosColor = peachosColor ++ c := by
  decide +kernel

theorem LaidOut.nil (inside : view.cursor.InGrid) : LaidOut view view [] := by
  have col := inside.col
  have start : layoutPosition view.cursor.cell [] ([] : List Byte).length = view.cursor.cell := rfl
  refine ⟨fun i c none => ?_, fun _ _ => rfl, ?_, ?_⟩
  · cases none
  · rw [start]
    unfold Terminal.cell vgaWidth at *
    omega
  · rw [start]
    unfold Terminal.cell vgaWidth at *
    omega

theorem LaidOut.cons {middle after : View} (later : LaidOut middle after text)
    (cursor : middle.cursor.cell = positionAfter view.cursor.cell c)
    (cells : middle.cells = if c = 10 then view.cells
      else Function.update view.cells view.cursor.cell (peachosColor ++ c)) : LaidOut view after (c :: text) := by
  obtain ⟨shown, others, row, col⟩ := later
  rw [cursor] at shown others row col
  have behind : ∀ i d, text[i]? = some d → d ≠ 10 →
      view.cursor.cell ≠ layoutPosition (positionAfter view.cursor.cell c) text i := by
    intro i _ _ _ same
    have first := lt_positionAfter view.cursor.cell c
    have after := le_layoutPosition (positionAfter view.cursor.cell c) text i
    omega
  refine ⟨fun i d here glyph => ?_, fun cell free => ?_, row, col⟩
  · cases i with
    | zero =>
      obtain rfl := Option.some.inj here
      rw [if_neg glyph] at cells
      change after.cells view.cursor.cell = _
      rw [others _ behind, cells, Function.update_self]
    | succ i => exact shown i d here glyph
  · rw [others cell (fun i d here glyph => free (i + 1) d here glyph), cells]
    split
    · rfl
    next glyph => exact Function.update_of_ne (free 0 c rfl glyph) _ _

theorem View.Room.write {output : Output} (room : view.Room (output.c :: text)) (notBackspace : output.c ≠ 0x08) :
    (view.write output).Room text ∧ (view.write output).cursor.cell = positionAfter view.cursor.cell output.c := by
  have before := le_layoutPosition (positionAfter view.cursor.cell output.c) text text.length
  have fits := room.fits
  rw [List.length_cons, layoutPosition_cons] at fits
  obtain ⟨inside, cell⟩ := room.inside.next_cell notBackspace (by omega)
  exact ⟨⟨inside, by rw [show (view.write output).cursor.cell = _ from cell]; exact fits⟩, cell⟩

theorem View.write_cells {output : Output} (plain : Printable output.c ∨ output.c = 10)
    (coloured : output.colour = peachosColor) : (view.write output).cells = if output.c = 10 then view.cells
      else Function.update view.cells view.cursor.cell (peachosColor ++ output.c) := by
  unfold View.write View.put
  dsimp only
  split
  · rfl
  next glyph =>
    obtain ⟨low, high⟩ := plain.resolve_right glyph
    have notBackspace : output.c ≠ 0x08 := by
      intro back
      rw [back] at low
      exact absurd low (by decide)
    rw [if_neg notBackspace, coloured, terminalMakeChar_ascii _ (by omega)]

theorem View.lays_out (outputs : List Output)
    (plain : ∀ output ∈ outputs, (Printable output.c ∨ output.c = 10) ∧ output.colour = peachosColor)
    (room : view.Room (outputs.map Output.c)) :
    LaidOut view (outputs.foldl View.write view) (outputs.map Output.c) := by
  induction outputs generalizing view with
  | nil => exact LaidOut.nil room.inside
  | cons output rest ih =>
    obtain ⟨⟨first, coloured⟩, later⟩ := List.forall_mem_cons.mp plain
    have notBackspace : output.c ≠ 0x08 := by
      rintro back
      rw [back] at first
      exact absurd first (by unfold Printable; decide)
    obtain ⟨next, cursor⟩ := room.write notBackspace
    exact LaidOut.cons (ih later next) cursor (View.write_cells first coloured)

end Layout

section Calls
variable {kernel : Kernel} {shell : Addr}

def Screen.printed (screen : Screen) (shell : Addr) (str : List Byte) : Screen :=
  str.foldl (fun screen c => screen.written shell c peachosColor) screen

theorem Screen.printed_kept (screen : Screen) (shell : Addr) (str : List Byte) :
    (screen.printed shell str).shellRecords = screen.shellRecords ∧
      (screen.printed shell str).currentShell = screen.currentShell := by
  induction str generalizing screen with
  | nil => exact ⟨rfl, rfl⟩
  | cons c str ih =>
    obtain ⟨records, current⟩ := screen.written_kept shell c peachosColor
    obtain ⟨laterRecords, laterCurrent⟩ := ih (screen.written shell c peachosColor)
    exact ⟨laterRecords.trans records, laterCurrent.trans current⟩

theorem Kernel.Writes.print_run (writes : kernel.Writes shell) (str : List Byte) :
    print str kernel = (.ok (), kernel.setScreen (kernel.screen.printed shell str)) := by
  induction str generalizing kernel with
  | nil => rfl
  | cons c str ih =>
    obtain ⟨records, current⟩ := kernel.screen.written_kept shell c peachosColor
    unfold print
    rw [bind_ok (writes.run c peachosColor)]
    exact ih (writes.setScreen records current)

theorem printAll_run (calls : List PrintCall) (speak : ∀ call ∈ calls, kernel.Speaks call.task) :
    ∃ last, printAll calls kernel = (.ok (), last) ∧
      last.screen = (outputsOf calls).foldl (fun screen output =>
        screen.written (kernel.shellOf output.task) output.c output.colour) kernel.screen := by
  induction calls generalizing kernel with
  | nil => exact ⟨kernel, rfl, rfl⟩
  | cons call rest ih =>
    obtain ⟨switch, writes⟩ := (speak call List.mem_cons_self).switch
    obtain ⟨records, current⟩ := kernel.screen.printed_kept (kernel.shellOf call.task) call.str
    obtain ⟨last, ran, screen⟩ := ih (fun next member =>
      (speak next (List.mem_cons_of_mem _ member)).later call.task records current)
    refine ⟨last, ?_, ?_⟩
    · unfold printAll
      rw [bind_ok switch, bind_ok (writes.print_run call.str)]
      exact ran
    · unfold outputsOf
      rw [List.flatMap_cons, List.foldl_append, List.foldl_map]
      exact screen

/-- While no backspace is written, each character goes to its shell's saved cursor. -/
theorem AtEach.steady {shellOf : Addr → Addr} (outputs : List Output) {screen : Screen}
    (clear : screen.backspace = false) (plain : ∀ output ∈ outputs, output.c ≠ 0x08) :
    AtEach (fun screen shell => screen.cursor shell = screen.saved shell) shellOf outputs screen := by
  induction outputs generalizing screen with
  | nil => trivial
  | cons output rest ih =>
    obtain ⟨first, later⟩ := List.forall_mem_cons.mp plain
    exact ⟨Screen.cursor_clear clear _, ih (screen.written_clear _ _ _ clear first) later⟩

theorem textOf_outputs (kernel : Kernel) (shell : Addr) (calls : List PrintCall) :
    ((outputsOf calls).filter (fun output => kernel.shellOf output.task == shell)).map Output.c =
      kernel.textOf shell calls := by
  unfold outputsOf Kernel.textOf
  induction calls with
  | nil => rfl
  | cons call rest ih =>
    rw [List.flatMap_cons, List.filter_append, List.map_append, ih]
    by_cases own : kernel.shellOf call.task = shell
    · have all : ((call.str.map (fun c => (⟨call.task, c, peachosColor⟩ : Output))).filter
          (fun output => kernel.shellOf output.task == shell)).map Output.c = call.str := by
        rw [List.filter_eq_self.mpr, List.map_map]
        · exact List.map_id _
        · intro output member
          obtain ⟨c, _, rfl⟩ := List.mem_map.mp member
          exact beq_iff_eq.mpr own
      rw [all, List.filter_cons_of_pos (by simpa using own), List.flatMap_cons]
    · have none : (call.str.map (fun c => (⟨call.task, c, peachosColor⟩ : Output))).filter
          (fun output => kernel.shellOf output.task == shell) = [] := by
        rw [List.filter_eq_nil_iff]
        intro output member
        obtain ⟨c, _, rfl⟩ := List.mem_map.mp member
        exact fun same => own (beq_iff_eq.mp same)
      rw [none, List.filter_cons_of_neg (by simpa using own)]
      rfl

end Calls

/-- What the tasks of a shell print stands where it is laid out, whatever the tasks of other shells print in between. -/
theorem terminal_lays_out {kernel : Kernel} (calls : List PrintCall) (shell : Addr)
    (speak : ∀ call ∈ calls, kernel.Speaks call.task)
    (apart : ∀ call ∈ calls, kernel.shellOf call.task ≠ shell → kernel.screen.Apart (kernel.shellOf call.task) shell)
    (clear : kernel.screen.backspace = false) (plain : ∀ call ∈ calls, ∀ c ∈ call.str, Printable c ∨ c = 10)
    (room : ∀ writer, writer = shell ∨ (∃ call ∈ calls, kernel.shellOf call.task = writer) →
      (kernel.screen.view writer).Room (kernel.textOf writer calls)) :
    ∃ last, printAll calls kernel = (.ok (), last) ∧
      (∃ single, writeAll (outputsOf calls) kernel = (.ok (), single) ∧ single.screen = last.screen) ∧
      LaidOut (kernel.screen.view shell) (last.screen.view shell) (kernel.textOf shell calls) := by
  have outputs : ∀ output ∈ outputsOf calls, ∃ call ∈ calls, output.task = call.task ∧ output.c ∈ call.str ∧
      output.colour = peachosColor := by
    intro output member
    obtain ⟨call, listed, inside⟩ := List.mem_flatMap.mp member
    obtain ⟨c, character, rfl⟩ := List.mem_map.mp inside
    exact ⟨call, listed, rfl, character, rfl⟩
  have plainOutputs : ∀ output ∈ outputsOf calls,
      (Printable output.c ∨ output.c = 10) ∧ output.colour = peachosColor := by
    intro output member
    obtain ⟨call, listed, _, character, colour⟩ := outputs output member
    exact ⟨plain call listed _ character, colour⟩
  have noBackspace : ∀ output ∈ outputsOf calls, output.c ≠ 0x08 := by
    intro output member back
    have kind := (plainOutputs output member).1
    rw [back] at kind
    exact absurd kind (by unfold Printable; decide)
  obtain ⟨last, ran, screen⟩ := printAll_run calls speak
  obtain ⟨single, written, same⟩ := writeAll_run (outputsOf calls) (fun output member => by
    obtain ⟨call, listed, task, _⟩ := outputs output member
    rw [task]
    exact speak call listed)
  refine ⟨last, ran, ⟨single, written, same.trans screen.symm⟩, ?_⟩
  have apartOutputs : ∀ output ∈ outputsOf calls, kernel.shellOf output.task ≠ shell →
      kernel.screen.Apart (kernel.shellOf output.task) shell := by
    intro output member different
    obtain ⟨call, listed, task, _⟩ := outputs output member
    rw [task] at different ⊢
    exact apart call listed different
  have others : last.screen.view shell = ((outputsOf calls).filter
      (fun output => kernel.shellOf output.task == shell)).foldl View.write (kernel.screen.view shell) := by
    rw [screen]
    exact View.fold_others _ _ apartOutputs (AtEach.steady _ clear noBackspace)
  have own := room shell (Or.inl rfl)
  rw [← textOf_outputs] at own ⊢
  rw [others]
  exact View.lays_out _ (fun output member => plainOutputs output (List.mem_filter.mp member).1) own

theorem terminal_lays_out_two : ∃ last,
    printAll [⟨0xA01000, [98]⟩, ⟨0x901000, [97]⟩, ⟨0xA01000, [10, 99]⟩] twoShells = (.ok (), last) ∧
      (∃ single, writeAll (outputsOf [⟨0xA01000, [98]⟩, ⟨0x901000, [97]⟩, ⟨0xA01000, [10, 99]⟩]) twoShells =
        (.ok (), single) ∧ single.screen = last.screen) ∧
      LaidOut (twoShells.screen.view 0xA02000) (last.screen.view 0xA02000) [98, 10, 99] := by
  have speaks := twoShells_speaks
  refine terminal_lays_out [⟨0xA01000, [98]⟩, ⟨0x901000, [97]⟩, ⟨0xA01000, [10, 99]⟩] 0xA02000
    ?_ ?_ rfl ?_ ?_
  · intro call member
    simp only [List.mem_cons, List.not_mem_nil, or_false] at member
    rcases member with rfl | rfl | rfl
    · exact speaks.2
    · exact speaks.1
    · exact speaks.2
  · intro call member different
    simp only [List.mem_cons, List.not_mem_nil, or_false] at member
    rcases member with rfl | rfl | rfl
    · exact absurd rfl different
    · exact twoShells_apart
    · exact absurd rfl different
  · unfold Printable
    decide
  · rintro writer (rfl | ⟨call, member, rfl⟩)
    · exact ⟨⟨by decide, by decide⟩, by decide⟩
    · simp only [List.mem_cons, List.not_mem_nil, or_false] at member
      rcases member with rfl | rfl | rfl
      · exact ⟨⟨by decide, by decide⟩, by decide⟩
      · exact ⟨⟨by decide, by decide⟩, by decide⟩
      · exact ⟨⟨by decide, by decide⟩, by decide⟩

end PeachOS
