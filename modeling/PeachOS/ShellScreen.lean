import PeachOS.ProcessRuns
import PeachOS.ShellCalls
import PeachOS.TerminalRuns

/-! The screen over any order of terminal writes, shell switches and new shells: it shows
the shell in the foreground. -/

namespace PeachOS
open Program Transition

/-- The length of the table of shells. -/
abbrev maxShells : Int := 12

/-- Some slot of the table holds the shell. -/
def Screen.Lists (screen : Screen) (shell : Addr) : Prop :=
  shell ≠ 0 ∧ ∃ id, 0 ≤ id ∧ id < maxShells ∧ screen.shells id = shell

def Screen.currentBuffer (screen : Screen) : Addr := (screen.shellRecords screen.currentShell).videoMem

/-- The 4096 bytes of the screen are the buffer of the current shell. -/
def Screen.Shows (screen : Screen) : Prop :=
  ∀ cell < videoCells, screen.vga cell = screen.videoMems screen.currentBuffer cell

/-- The shell in slot `id` carries its number, and has a buffer and a terminal of its own. -/
structure ShellEntry (system : System) (id : Int) (shell : Addr) : Prop where
  own : system.blocks shell = some .shell
  next : id + 1 < maxShells
  number : (system.screen.shellRecords shell).shellId = id
  videoMem : system.blocks (system.screen.shellRecords shell).videoMem = some (.videoMem shell)
  terminal : system.blocks (system.screen.shellRecords shell).terminal = some (.terminal shell)

/-- What holds of the shells between any two calls. -/
structure ShellsSound (system : System) : Prop where
  consistent : Consistent ∅ system
  entries : ∀ id, 0 ≤ id → id < maxShells → system.screen.shells id ≠ 0 →
    ShellEntry system id (system.screen.shells id)
  voices : ∀ process, (system.tables.processRecords process).shell = 0 ∨
    system.screen.Lists (system.tables.processRecords process).shell
  foreground : (system.screen.currentShell = 0 ∧ ∀ shell, ¬system.screen.Lists shell) ∨
    (system.screen.Lists system.screen.currentShell ∧ system.screen.Shows)

section Shows
variable {screen : Screen} {shell : Addr}

/-- Two shells share a buffer when they share a number. -/
def Screen.SameBuffer (screen : Screen) (shell : Addr) : Prop :=
  (screen.shellRecords screen.currentShell).shellId = (screen.shellRecords shell).shellId ↔
    screen.currentBuffer = (screen.shellRecords shell).videoMem

/-- A character for the shell in the foreground goes to the screen as well, and one for
another shell to neither. -/
theorem Screen.Shows.put (shows : screen.Shows) (same : screen.SameBuffer shell) (cursor : Terminal)
    (c colour : Byte) : (screen.put shell cursor c colour).Shows := by
  intro cell inside
  change (if (screen.shellRecords screen.currentShell).shellId = (screen.shellRecords shell).shellId then
      fun cell => if cell < videoCells then Function.update
        (screen.videoMems (screen.shellRecords shell).videoMem) cursor.cell (terminalMakeChar c colour) cell
        else screen.vga cell
    else screen.vga) cell = Function.update screen.videoMems (screen.shellRecords shell).videoMem
      (Function.update (screen.videoMems (screen.shellRecords shell).videoMem) cursor.cell
        (terminalMakeChar c colour)) screen.currentBuffer cell
  by_cases front : (screen.shellRecords screen.currentShell).shellId =
      (screen.shellRecords shell).shellId
  · rw [if_pos front, if_pos inside, same.mp front, Function.update_self]
  · have other : screen.currentBuffer ≠ (screen.shellRecords shell).videoMem :=
      fun buffer => front (same.mpr buffer)
    rw [if_neg front, Function.update_of_ne other]
    exact shows cell inside

theorem Screen.Shows.drawn (shows : screen.Shows) (same : screen.SameBuffer shell) (c colour : Byte) :
    (screen.drawn shell c colour).Shows := by
  unfold Screen.drawn
  dsimp only
  split
  · exact shows
  · split
    · split
      · exact shows
      · exact shows.put same _ _ _
    · exact shows.put same _ _ _

theorem Screen.Shows.written (shows : screen.Shows) (same : screen.SameBuffer shell) (c colour : Byte) :
    (screen.written shell c colour).Shows := by
  rw [Screen.written_eq]
  exact shows.drawn same c colour

theorem Screen.written_shells (screen : Screen) (shell : Addr) (c colour : Byte) :
    (screen.written shell c colour).shells = screen.shells := by
  rw [Screen.written_eq]
  change (screen.drawn shell c colour).shells = _
  unfold Screen.drawn
  dsimp only
  split
  · rfl
  · split
    · split <;> rfl
    · rfl

theorem Screen.foreground_shows (screen : Screen) (shell : Addr) : (screen.foreground shell).Shows :=
  fun _ inside => screen.foreground_vga shell inside

end Shows

section Sound
variable {system after start built : System} {shell other : Addr} {id : Int}

theorem ShellEntry.nonnull (entry : ShellEntry system id shell) (null : system.blocks 0 = none) :
    (system.screen.shellRecords shell).videoMem ≠ 0 ∧
      (system.screen.shellRecords shell).terminal ≠ 0 := by
  constructor
  · intro zero
    have own := entry.videoMem
    rw [zero, null] at own
    cases own
  · intro zero
    have own := entry.terminal
    rw [zero, null] at own
    cases own

theorem ShellEntry.congr (entry : ShellEntry system id shell) (blocks : after.blocks = system.blocks)
    (records : after.screen.shellRecords = system.screen.shellRecords) :
    ShellEntry after id shell where
  own := blocks ▸ entry.own
  next := entry.next
  number := records ▸ entry.number
  videoMem := by
    rw [blocks, records]
    exact entry.videoMem
  terminal := by
    rw [blocks, records]
    exact entry.terminal

theorem Screen.Lists.congr {screen last : Screen} (lists : screen.Lists shell)
    (shells : last.shells = screen.shells) : last.Lists shell := by
  unfold Screen.Lists
  rw [shells]
  exact lists

theorem ShellsSound.entry (sound : ShellsSound system) (lists : system.screen.Lists shell) :
    ∃ id, 0 ≤ id ∧ id < maxShells ∧ system.screen.shells id = shell ∧ ShellEntry system id shell := by
  obtain ⟨nonnull, id, low, high, here⟩ := lists
  have entry := sound.entries id low high (here ▸ nonnull)
  rw [here] at entry
  exact ⟨id, low, high, here, entry⟩

theorem ShellsSound.sameBuffer (sound : ShellsSound system) (lists : system.screen.Lists shell)
    (current : system.screen.Lists system.screen.currentShell) : system.screen.SameBuffer shell := by
  obtain ⟨id, low, high, here, entry⟩ := sound.entry lists
  obtain ⟨front, _, _, there, currentEntry⟩ := sound.entry current
  constructor
  · intro number
    rw [entry.number, currentEntry.number] at number
    unfold Screen.currentBuffer
    rw [← there, number, here]
  · intro buffer
    have own := currentEntry.videoMem
    change system.blocks system.screen.currentBuffer = _ at own
    rw [buffer, entry.videoMem] at own
    have same : shell = system.screen.currentShell := by
      simpa using own
    rw [same]

theorem ShellsSound.redraw (sound : ShellsSound system) (consistent : Consistent ∅ after)
    (blocks : after.blocks = system.blocks) (shells : after.screen.shells = system.screen.shells)
    (records : after.screen.shellRecords = system.screen.shellRecords)
    (voices : ∀ process, (after.tables.processRecords process).shell =
      (system.tables.processRecords process).shell)
    (foreground : (after.screen.currentShell = 0 ∧ ∀ shell, ¬system.screen.Lists shell) ∨
      (system.screen.Lists after.screen.currentShell ∧ after.screen.Shows)) : ShellsSound after where
  consistent := consistent
  entries := by
    intro id low high taken
    rw [shells] at taken ⊢
    exact (sound.entries id low high taken).congr blocks records
  voices := by
    intro process
    rw [voices]
    exact (sound.voices process).imp_right (fun lists => lists.congr shells)
  foreground := by
    rcases foreground with ⟨null, none⟩ | ⟨lists, shows⟩
    · refine Or.inl ⟨null, fun shell lists => none shell (lists.congr shells.symm)⟩
    · exact Or.inr ⟨lists.congr shells, shows⟩

end Sound

/-- The character lands in the 4096 bytes of the buffer. -/
def Screen.InBuffer (screen : Screen) (shell : Addr) (c : Byte) : Prop :=
  let cursor := screen.cursor shell
  if c = 10 then True
  else if c = 0x08 then (cursor.terminalRow = 0 ∧ cursor.terminalCol = 0) ∨ cursor.left.cell < videoCells
  else cursor.cell < videoCells

/-- The current task is one of a shell's process. -/
structure Kernel.InShell (kernel : Kernel) (shell : Addr) : Prop where
  task : kernel.currentTask ≠ 0
  process : kernel.owner ≠ 0
  voice : (kernel.processRecords kernel.owner).shell = shell
  nonnull : shell ≠ 0

/-- A switch of tasks, a character by a task of a shell, a switch of shells, or a new
shell, made or not. -/
inductive ScreenStep : System → System → Prop where
  | task {before after : System} (oracle : Oracle) (task : Addr)
      (run : oracle.below.kernel (taskSwitch task) before = (.ok (), after)) : ScreenStep before after
  | write {before after : System} (oracle : Oracle) (shell : Addr) (c colour : Byte)
      (speaker : before.kernel.InShell shell) (inside : before.screen.InBuffer shell c)
      (run : oracle.below.kernel (terminalWritechar c colour) before = (.ok (), after)) :
      ScreenStep before after
  | switch {before after : System} (oracle : Oracle) (id res : Int) (low : 0 ≤ id) (high : id < maxShells)
      (run : oracle.below.kernel (shellSwitch id) before = (.ok res, after)) : ScreenStep before after
  | next {before after : System} (oracle : Oracle)
      (run : oracle.below.kernel shellSwitchToNext before = (.ok (), after)) : ScreenStep before after
  | make {before after : System} (oracle : Oracle) (id res : Int) (shell : Addr) (low : 0 ≤ id)
      (high : id + 1 < maxShells) (run : oracle.below.shellNew id before = (.ok (res, shell), after)) :
      ScreenStep before after

/-- The invariant holds afterwards, and a shell that is current has a successor. -/
structure System.Keeps (before after : System) : Prop where
  sound : ShellsSound after
  running : before.screen.currentShell ≠ 0 → after.screen.currentShell ≠ 0

section Steps
variable {oracle : Oracle} {before after start : System} {shell out : Addr} {id res : Int}

theorem taskSwitch_tables {kernel last : Kernel} {task : Addr}
    (run : taskSwitch task kernel = (.ok (), last)) : last.tables = kernel.tables := by
  unfold taskSwitch Kernel.pagingSwitch at run
  split at run
  · cases run
  · rw [update_bind, read_bind] at run
    split at run
    · cases run
    · cases run
      rfl

theorem ShellsSound.task {task : Addr} (sound : ShellsSound before)
    (run : oracle.below.kernel (taskSwitch task) before = (.ok (), after)) :
    before.Keeps after := by
  obtain ⟨kernel, switched, rfl⟩ := below_kernel_ok run
  have tables : (before.setKernel kernel).tables = before.tables := taskSwitch_tables switched
  have screen : (before.setKernel kernel).screen = before.screen := congrArg Tables.screen tables
  have consistent : Consistent ∅ (before.setKernel kernel) := sound.consistent.congr rfl tables
  refine ⟨?_, fun current => by rw [screen]; exact current⟩
  apply sound.redraw consistent rfl
  · rw [screen]
  · rw [screen]
  · intro process
    rw [tables]
  · rw [screen]
    exact sound.foreground

theorem ShellsSound.writes (sound : ShellsSound before) (speaker : before.kernel.InShell shell) :
    before.screen.Lists shell ∧ before.kernel.Writes shell := by
  have lists : before.screen.Lists shell := by
    rw [← speaker.voice]
    apply (sound.voices before.kernel.owner).resolve_left
    intro null
    exact speaker.nonnull (speaker.voice.symm.trans null)
  obtain ⟨current, shows⟩ := sound.foreground.resolve_left (fun none => none.2 shell lists)
  obtain ⟨_, _, _, _, entry⟩ := sound.entry lists
  obtain ⟨videoMem, terminal⟩ := entry.nonnull sound.consistent.null
  exact ⟨lists, speaker.task, speaker.process, speaker.voice, speaker.nonnull, terminal, videoMem, current.1⟩

theorem ShellsSound.write {c colour : Byte} (sound : ShellsSound before)
    (speaker : before.kernel.InShell shell)
    (run : oracle.below.kernel (terminalWritechar c colour) before = (.ok (), after)) :
    before.Keeps after := by
  obtain ⟨lists, writes⟩ := sound.writes speaker
  obtain ⟨current, shows⟩ := sound.foreground.resolve_left (fun none => none.2 shell lists)
  obtain ⟨kernel, written, rfl⟩ := below_kernel_ok run
  rw [writes.run] at written
  cases written
  obtain ⟨records, same⟩ := before.screen.written_kept shell c colour
  refine ⟨?_, fun running => same.trans_ne running⟩
  apply sound.redraw
  · exact sound.consistent.setScreen _
  · rfl
  · exact before.screen.written_shells shell c colour
  · exact records
  · exact fun _ => rfl
  · right
    exact ⟨same.symm ▸ current, shows.written (sound.sameBuffer lists current) c colour⟩

theorem ShellsSound.switch (sound : ShellsSound before) (low : 0 ≤ id) (high : id < maxShells)
    (run : oracle.below.kernel (shellSwitch id) before = (.ok res, after)) : before.Keeps after := by
  rcases shellSwitch_below_ok run with ⟨_, _, rfl⟩ | ⟨taken, _, blocks, tables⟩
  · exact ⟨sound, fun running => running⟩
  · have screen : after.screen = before.screen.foreground (before.screen.shells id) :=
      congrArg Tables.screen tables
    refine ⟨?_, fun _ => by rw [screen]; exact taken⟩
    apply sound.redraw
    · apply sound.consistent.retabled blocks <;> rw [tables]
      exact fun _ => ⟨.of_eq rfl, rfl⟩
    · exact blocks
    · rw [screen]
      rfl
    · rw [screen]
      rfl
    · intro process
      rw [tables]
    · right
      rw [screen]
      exact ⟨⟨taken, id, low, high, rfl⟩, before.screen.foreground_shows _⟩

theorem ShellsSound.nextShell (sound : ShellsSound before)
    (current : before.screen.Lists before.screen.currentShell) :
    0 ≤ before.screen.nextShell ∧ before.screen.nextShell < maxShells := by
  obtain ⟨id, low, high, _, entry⟩ := sound.entry current
  have next := entry.next
  unfold Screen.nextShell
  dsimp only
  rw [entry.number]
  split
  · omega
  · split
    · omega
    · split
      · omega
      · unfold maxShells
        omega

theorem ShellsSound.next (sound : ShellsSound before)
    (run : oracle.below.kernel shellSwitchToNext before = (.ok (), after)) : before.Keeps after := by
  obtain ⟨running, res, switch⟩ := shellSwitchToNext_below.mp run
  have current := (sound.foreground.resolve_left (fun none => running none.1)).1
  obtain ⟨low, high⟩ := sound.nextShell current
  exact sound.switch low high switch

theorem ShellEntry.building {voices : Set Addr} {record : Shell} {other : Addr}
    (entry : ShellEntry start id other) (building : ShellBuild start voices shell record after) :
    ShellEntry after id other := by
  have records := building.records other (by rw [entry.own]; simp)
  exact ⟨building.grows _ _ entry.own, entry.next, records ▸ entry.number,
    records ▸ building.grows _ _ entry.videoMem, records ▸ building.grows _ _ entry.terminal⟩

theorem ShellBuild.shows {voices : Set Addr} {record : Shell}
    (building : ShellBuild start voices shell record after) (sound : ShellsSound start)
    (lists : start.screen.Lists start.screen.currentShell) (shows : start.screen.Shows) :
    after.screen.Shows := by
  obtain ⟨id, _, _, _, entry⟩ := sound.entry lists
  have buffer : after.screen.currentBuffer = start.screen.currentBuffer := by
    unfold Screen.currentBuffer
    rw [building.current, building.records _ (by rw [entry.own]; simp)]
  have used : start.blocks start.screen.currentBuffer ≠ none := by
    have own : start.blocks start.screen.currentBuffer = _ := entry.videoMem
    rw [own]
    simp
  intro cell inside
  rw [building.vga, buffer, building.videoMems _ used]
  exact shows cell inside

theorem ShellsSound.make (sound : ShellsSound start) (low : 0 ≤ id) (high : id + 1 < maxShells)
    (run : oracle.below.shellNew id start = (.ok (res, out), after)) :
    start.Keeps after ∧ (0 ≤ res → after.screen.currentShell ≠ 0) := by
  cases shellNew_outcome sound.consistent run with
  | taken used => exact ⟨⟨sound, fun running => running⟩, fun proper => absurd proper (by decide)⟩
  | failed shell record after building processes current =>
    refine ⟨⟨?_, fun running => building.current.trans_ne running⟩,
      fun proper => absurd proper (by decide)⟩
    have shells := building.shells
    constructor
    · exact building.consistent
    · intro other low high taken
      rw [shells] at taken ⊢
      exact (sound.entries other low high taken).building building
    · intro process
      rcases building.voice process with kept | new
      · rw [kept]
        exact (sound.voices process).imp_right (fun lists => lists.congr shells)
      · exact Or.inl new.2
    · rw [building.current]
      rcases sound.foreground with ⟨null, none⟩ | ⟨lists, shows⟩
      · exact Or.inl ⟨null, fun shell lists => none shell (lists.congr shells.symm)⟩
      · exact Or.inr ⟨lists.congr shells, building.shows sound lists shows⟩
  | made _ shell record built after i proper empty nonnull building number videoMem terminal process speaker
      bound free processes blocks tables =>
    have screen : after.screen = ({ built.screen with
        shells := Function.update built.screen.shells id out } : Screen).foreground out :=
      congrArg Tables.screen tables
    have records : after.screen.shellRecords = built.screen.shellRecords := by
      rw [screen]
      rfl
    have slots : ∀ other, after.screen.shells other =
        if other = id then out else start.screen.shells other := by
      intro other
      rw [screen, ← building.shells]
      exact Function.update_apply _ _ _ _
    have made : ShellEntry built id out :=
      ⟨building.own, high, by rw [building.entry, number], by rw [building.entry, videoMem],
        by rw [building.entry, terminal]⟩
    have listed : after.screen.Lists out :=
      ⟨nonnull, id, low, by omega, by rw [slots, if_pos rfl]⟩
    have running : after.screen.currentShell ≠ 0 := by
      rw [screen]
      exact nonnull
    refine ⟨⟨⟨?_, ?_, ?_, Or.inr ?_⟩, fun _ => running⟩, fun _ => running⟩
    · apply building.consistent.retabled blocks <;> rw [tables]
      exact fun _ => ⟨.of_eq rfl, rfl⟩
    · intro other low high taken
      rw [slots] at taken ⊢
      by_cases here : other = id
      · rw [if_pos here, here]
        exact made.congr blocks records
      · rw [if_neg here] at taken ⊢
        exact ((sound.entries other low high taken).building building).congr blocks records
    · intro process
      have voice : (after.tables.processRecords process).shell =
          (built.tables.processRecords process).shell := by
        rw [tables]
      rw [voice]
      rcases building.voice process with kept | ⟨_, zero | new⟩
      · rw [kept]
        apply (sound.voices process).imp_right
        rintro ⟨proper, other, low, high, here⟩
        refine ⟨proper, other, low, high, ?_⟩
        rw [slots, if_neg, here]
        rintro rfl
        exact proper (here.symm.trans empty)
      · exact Or.inl zero
      · rw [new]
        exact Or.inr listed
    · rw [screen] at listed ⊢
      exact ⟨listed, Screen.foreground_shows _ _⟩

theorem ScreenStep.keeps (step : ScreenStep before after) (sound : ShellsSound before) :
    before.Keeps after := by
  cases step with
  | task oracle task run => exact sound.task run
  | write oracle shell c colour speaker inside run => exact sound.write speaker run
  | switch oracle id res low high run => exact sound.switch low high run
  | next oracle run => exact sound.next run
  | make oracle id res shell low high run => exact (sound.make low high run).1

end Steps

/-- No shell has been made. -/
structure NoShells (system : System) : Prop where
  consistent : Consistent ∅ system
  shells : ∀ id, 0 ≤ id → id < maxShells → system.screen.shells id = 0
  current : system.screen.currentShell = 0
  voices : ∀ process, (system.tables.processRecords process).shell = 0

section Runs
variable {boot before start last : System} {oracle : Oracle} {id res : Int} {shell : Addr}

theorem NoShells.sound (none : NoShells boot) : ShellsSound boot where
  consistent := none.consistent
  entries := fun id low high taken => absurd (none.shells id low high) taken
  voices := fun process => Or.inl (none.voices process)
  foreground := by
    refine Or.inl ⟨none.current, ?_⟩
    rintro shell ⟨nonnull, id, low, high, here⟩
    exact nonnull (here.symm.trans (none.shells id low high))

/-- From the first shell on, after any characters, switches and new shells, the screen
shows the buffer of the current shell. -/
theorem screen_runs_shown (none : NoShells boot) (first : Run ScreenStep boot before) (low : 0 ≤ id)
    (high : id + 1 < maxShells) (made : oracle.below.shellNew id before = (.ok (res, shell), start))
    (proper : 0 ≤ res) (run : Run ScreenStep start last) :
    last.screen.currentShell ≠ 0 ∧ ∀ cell < videoCells, last.screen.vga cell =
      last.screen.videoMems (last.screen.shellRecords last.screen.currentShell).videoMem cell := by
  have sound := first.invariant ShellsSound (fun _ _ held step => (step.keeps held).sound) none.sound
  obtain ⟨started, running⟩ := sound.make low high made
  have held := run.invariant (fun system => ShellsSound system ∧ system.screen.currentShell ≠ 0)
    (fun _ _ held step => ⟨(step.keeps held.1).sound, (step.keeps held.1).running held.2⟩)
    ⟨started.sound, running proper⟩
  exact ⟨held.2, (held.1.foreground.resolve_left (fun null => held.2 null.1)).2⟩

end Runs

theorem bootSystem_noShells : NoShells bootSystem where
  consistent := bootSystem_noProcesses.consistent
  shells := fun _ _ _ => rfl
  current := rfl
  voices := fun _ => rfl

def oneShellMade : System := (pages.below.shellNew 0 bootSystem).2

def twoShellsMade : System := (pages.below.shellNew 1 oneShellMade).2

def firstShellAgain : System := (pages.below.kernel shellSwitchToNext twoShellsMade).2

theorem oneShellMade_run : pages.below.shellNew 0 bootSystem = (.ok (0, 0x1000000), oneShellMade) :=
  run_of_result (by decide +kernel)

theorem twoShellsMade_run : pages.below.shellNew 1 oneShellMade = (.ok (0, 0x100a000), twoShellsMade) :=
  run_of_result (by decide +kernel)

theorem firstShellAgain_run :
    pages.below.kernel shellSwitchToNext twoShellsMade = (.ok (), firstShellAgain) :=
  run_of_result (by decide +kernel)

/-- Two shells are made, and the keyboard switches from the second to the first. -/
theorem screen_runs_shown_two : firstShellAgain.screen.currentShell = 0x1000000 ∧
    ∀ cell < videoCells, firstShellAgain.screen.vga cell = firstShellAgain.screen.videoMems
      (firstShellAgain.screen.shellRecords firstShellAgain.screen.currentShell).videoMem cell := by
  have more : ScreenStep oneShellMade twoShellsMade :=
    .make pages 1 0 0x100a000 (by decide) (by decide) twoShellsMade_run
  have switch : ScreenStep twoShellsMade firstShellAgain := .next pages firstShellAgain_run
  have shown := screen_runs_shown bootSystem_noShells .refl (by decide) (by decide) oneShellMade_run
    (by decide) ((Relation.ReflTransGen.single more).tail switch)
  exact ⟨by decide +kernel, shown.2⟩

end PeachOS
