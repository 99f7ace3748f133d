import PeachOS.ProcessServe
import PeachOS.Shell

/-! `shell_new` and `shell_switch` over the abstract heap: what a new shell is, and that
making one disturbs no other. -/

namespace PeachOS
open Program

def System.screen (system : System) : Screen := system.kernel.screen

def System.setScreen (system : System) (screen : Screen) : System :=
  system.setKernel (system.kernel.setScreen screen)

section Screens
variable {β : Type} {oracle : Oracle} {system : System}

@[simp] theorem System.setScreen_screen (screen : Screen) : (system.setScreen screen).screen = screen := rfl

@[simp] theorem System.setScreen_blocks (screen : Screen) :
    (system.setScreen screen).blocks = system.blocks := rfl

theorem System.setScreen_tables (system : System) (screen : Screen) :
    (system.setScreen screen).tables = { system.tables with screen := screen } := rfl

theorem below_screen_bind (change : Screen → Screen) (next : Unit → SystemProg β) :
    (oracle.below.kernel (Kernel.updateScreen change) >>= next) system =
      next () (system.setScreen (change system.screen)) := rfl

theorem Screen.setShell_self (screen : Screen) (shell : Addr) (change : Shell → Shell) :
    (screen.setShell shell change).shellRecords shell = change (screen.shellRecords shell) :=
  Function.update_self _ _ _

theorem Screen.setShell_other {screen : Screen} {shell other : Addr} {change : Shell → Shell}
    (different : other ≠ shell) :
    (screen.setShell shell change).shellRecords other = screen.shellRecords other :=
  Function.update_of_ne different _ _

end Screens

/-- The table of processes and the current process are as they were. -/
def System.SameProcesses (before after : System) : Prop :=
  after.tables.processes = before.tables.processes ∧
    after.tables.currentProcess = before.tables.currentProcess

theorem System.SameProcesses.trans {before middle after : System} (first : before.SameProcesses middle)
    (second : middle.SameProcesses after) : before.SameProcesses after :=
  ⟨second.1.trans first.1, second.2.trans first.2⟩

/-- A shell with the record `record` is being made: nothing that was there at the start has
changed, and a process that got a shell meanwhile is new and has one of `voices`. -/
structure ShellBuild (start : System) (voices : Set Addr) (shell : Addr) (record : Shell)
    (system : System) : Prop where
  consistent : Consistent ∅ system
  grows : start.Grows system
  fresh : start.blocks shell = none
  own : system.blocks shell = some .shell
  shells : system.screen.shells = start.screen.shells
  current : system.screen.currentShell = start.screen.currentShell
  vga : system.screen.vga = start.screen.vga
  entry : system.screen.shellRecords shell = record
  buffer : record.videoMem = 0 ∨
    start.blocks record.videoMem = none ∧ system.blocks record.videoMem = some (.videoMem shell)
  terminal : record.terminal = 0 ∨ system.blocks record.terminal = some (.terminal shell)
  records : ∀ other, start.blocks other ≠ none →
    system.screen.shellRecords other = start.screen.shellRecords other
  videoMems : ∀ ptr, start.blocks ptr ≠ none → system.screen.videoMems ptr = start.screen.videoMems ptr
  voice : ∀ process,
    (system.tables.processRecords process).shell = (start.tables.processRecords process).shell ∨
    start.blocks process = none ∧ (system.tables.processRecords process).shell ∈ voices

section ShellBuild
variable {start system after : System} {voices : Set Addr} {shell ptr process : Addr} {record : Shell}

theorem Consistent.setScreen (consistent : Consistent ∅ system) (screen : Screen) :
    Consistent ∅ (system.setScreen screen) :=
  consistent.retabled rfl rfl (fun _ => ⟨.of_eq rfl, rfl⟩) rfl rfl rfl

theorem ShellBuild.begin (consistent : Consistent ∅ start) (nonnull : shell ≠ 0)
    (empty : start.blocks shell = none) (id : Int) :
    ShellBuild start {0} shell { Shell.zero with shellId := id } ((start.mark shell .shell).setScreen
      (start.screen.setShell shell (fun _ => { Shell.zero with shellId := id }))) := by
  have marked : Consistent ∅ (start.mark shell .shell) :=
    consistent.marked nonnull empty (by simp) rfl rfl
  constructor
  · exact marked.setScreen _
  · exact System.Grows.mark empty rfl
  · exact empty
  · simp
  · rfl
  · rfl
  · rfl
  · rw [System.setScreen_screen, Screen.setShell_self]
  · exact Or.inl rfl
  · exact Or.inl rfl
  · intro other used
    have different : other ≠ shell := fun same => used (same ▸ empty)
    rw [System.setScreen_screen, Screen.setShell_other different]
  · exact fun _ _ => rfl
  · exact fun _ => Or.inl rfl

theorem ShellBuild.unused (building : ShellBuild start voices shell record system)
    (empty : system.blocks ptr = none) : start.blocks ptr = none ∧ ptr ≠ shell := by
  constructor
  · cases used : start.blocks ptr with
    | none => rfl
    | some use =>
      rw [building.grows ptr use used] at empty
      cases empty
  · rintro rfl
    rw [building.own] at empty
    cases empty

theorem ShellBuild.mark (building : ShellBuild start voices shell record system) (nonnull : ptr ≠ 0)
    (empty : system.blocks ptr = none) {use : BlockUse} (unowned : ∀ part process,
      use ≠ .owned part process) : ShellBuild start voices shell record (system.mark ptr use) := by
  have grows : system.Grows (system.mark ptr use) := System.Grows.mark empty rfl
  exact { building with
    consistent := building.consistent.marked nonnull empty
      (fun part process same => absurd same (unowned part process)) rfl rfl
    grows := building.grows.trans grows
    own := grows _ _ building.own
    buffer := building.buffer.imp_right (And.imp_right (grows _ _))
    terminal := building.terminal.imp_right (grows _ _) }

theorem ShellBuild.setShell (building : ShellBuild start voices shell record system)
    (change : Shell → Shell)
    (buffer : (change record).videoMem = 0 ∨ start.blocks (change record).videoMem = none ∧
      system.blocks (change record).videoMem = some (.videoMem shell))
    (terminal : (change record).terminal = 0 ∨
      system.blocks (change record).terminal = some (.terminal shell)) :
    ShellBuild start voices shell (change record)
      (system.setScreen (system.screen.setShell shell change)) where
  consistent := building.consistent.setScreen _
  grows := building.grows
  fresh := building.fresh
  own := building.own
  shells := building.shells
  current := building.current
  vga := building.vga
  entry := by rw [System.setScreen_screen, Screen.setShell_self, building.entry]
  buffer := buffer
  terminal := terminal
  records := by
    intro other used
    have different : other ≠ shell := fun same => used (same ▸ building.fresh)
    rw [System.setScreen_screen, Screen.setShell_other different, building.records other used]
  videoMems := building.videoMems
  voice := building.voice

theorem ShellBuild.draw (building : ShellBuild start voices shell record system) (screen : Screen)
    (shells : screen.shells = system.screen.shells)
    (current : screen.currentShell = system.screen.currentShell)
    (vga : screen.vga = system.screen.vga) (records : screen.shellRecords = system.screen.shellRecords)
    (videoMems : ∀ ptr, start.blocks ptr ≠ none → screen.videoMems ptr = system.screen.videoMems ptr) :
    ShellBuild start voices shell record (system.setScreen screen) where
  consistent := building.consistent.setScreen _
  grows := building.grows
  fresh := building.fresh
  own := building.own
  shells := shells.trans building.shells
  current := current.trans building.current
  vga := vga.trans building.vga
  entry := (congrFun records shell).trans building.entry
  buffer := building.buffer
  terminal := building.terminal
  records := fun other used => (congrFun records other).trans (building.records other used)
  videoMems := fun ptr used => (videoMems ptr used).trans (building.videoMems ptr used)
  voice := building.voice

theorem ShellBuild.offScreen {more : Set Addr} (building : ShellBuild start voices shell record system)
    (consistent : Consistent ∅ after) (grows : system.Grows after)
    (screen : after.tables.screen = system.tables.screen) (subset : voices ⊆ more)
    (voice : ∀ process,
      (after.tables.processRecords process).shell = (system.tables.processRecords process).shell ∨
      start.blocks process = none ∧ (after.tables.processRecords process).shell ∈ more) :
    ShellBuild start more shell record after := by
  have same : after.screen = system.screen := screen
  constructor
  · exact consistent
  · exact building.grows.trans grows
  · exact building.fresh
  · exact grows _ _ building.own
  iterate 3
    rw [same]
    first | exact building.shells | exact building.current | exact building.vga
  · rw [same]
    exact building.entry
  · exact building.buffer.imp_right (And.imp_right (grows _ _))
  · exact building.terminal.imp_right (grows _ _)
  · rw [same]
    exact building.records
  · rw [same]
    exact building.videoMems
  · intro process
    rcases voice process with kept | new
    · rw [kept]
      exact (building.voice process).imp_right (And.imp_right (fun member => subset member))
    · exact Or.inr new

end ShellBuild

/-- The screen after a switch to a shell. -/
def Screen.foreground (screen : Screen) (shell : Addr) : Screen :=
  ({ screen with currentShell := shell }).show (screen.videoMems (screen.shellRecords shell).videoMem)

theorem Screen.foreground_vga (screen : Screen) (shell : Addr) {cell : Nat} (inside : cell < videoCells) :
    (screen.foreground shell).vga cell =
      screen.videoMems (screen.shellRecords shell).videoMem cell := if_pos inside

/-- How a new shell ends: its number is taken, its process could not be loaded, or it is in
the table and in the foreground. -/
inductive ShellOutcome (start : System) (id : Int) : Int → Addr → System → Prop where
  | taken (used : start.screen.shells id ≠ 0) : ShellOutcome start id (-EINVARG) 0 start
  | failed (shell : Addr) (record : Shell) (after : System)
      (building : ShellBuild start {0} shell record after)
      (processes : after.tables.processes = start.tables.processes)
      (current : after.tables.currentProcess = start.tables.currentProcess) :
      ShellOutcome start id (- EIO) 0 after
  | made (res : Int) (shell : Addr) (record : Shell) (built after : System) (i : Nat) (proper : 0 ≤ res)
      (empty : start.screen.shells id = 0) (nonnull : shell ≠ 0)
      (building : ShellBuild start {0, shell} shell record built)
      (number : record.shellId = id)
      (videoMem : built.blocks record.videoMem = some (.videoMem shell))
      (terminal : built.blocks record.terminal = some (.terminal shell))
      (process : record.process ≠ 0)
      (speaker : (built.tables.processRecords record.process).shell = shell)
      (bound : i < peachosMaxProcesses) (free : start.tables.processes i = 0)
      (processes : built.tables.processes = Function.update start.tables.processes i record.process)
      (blocks : after.blocks = built.blocks)
      (tables : after.tables = { built.tables with
        screen := ({ built.screen with
          shells := Function.update built.screen.shells id shell } : Screen).foreground shell
        currentProcess := record.process }) : ShellOutcome start id res shell after

section Calls
variable {oracle : Oracle} {start system after : System} {id res : Int} {shell out : Addr}

theorem shellSwitch_below_ok
    (run : oracle.below.kernel (shellSwitch id) system = (.ok res, after)) :
    (system.screen.shells id = 0 ∧ res = -EINVARG ∧ after = system) ∨
      (system.screen.shells id ≠ 0 ∧ res = 0 ∧ after.blocks = system.blocks ∧
        after.tables = { system.tables with
          screen := system.screen.foreground (system.screen.shells id)
          currentProcess := (system.screen.shellRecords (system.screen.shells id)).process }) := by
  obtain ⟨kernel, switched, rfl⟩ := below_kernel_ok run
  unfold shellSwitch at switched
  rw [read_bind] at switched
  split at switched
  next null =>
    cases switched
    exact Or.inl ⟨null, rfl, rfl⟩
  next nonnull =>
    unfold Kernel.updateScreen processSwitch at switched
    rw [update_bind, read_bind, update_bind] at switched
    split at switched
    · cases switched
    · cases switched
      exact Or.inr ⟨nonnull, rfl, rfl, rfl⟩

theorem shellSwitch_below_returns (oracle : Oracle) (taken : system.screen.shells id ≠ 0)
    (videoMem : (system.screen.shellRecords (system.screen.shells id)).videoMem ≠ 0) :
    ∃ after, oracle.below.kernel (shellSwitch id) system = (.ok 0, after) := by
  have run : ∃ kernel, shellSwitch id system.kernel = (.ok 0, kernel) := by
    unfold shellSwitch Kernel.updateScreen processSwitch
    have here : ¬system.kernel.screen.shells id = 0 := taken
    rw [read_bind, if_neg here, update_bind, read_bind, update_bind]
    exact ⟨_, congrFun (if_neg videoMem) _⟩
  obtain ⟨kernel, switched⟩ := run
  exact ⟨_, below_kernel_run switched⟩

/-- A switch to the next shell is a switch to the one that `nextShell` names. -/
theorem shellSwitchToNext_below : oracle.below.kernel shellSwitchToNext system = (.ok (), after) ↔
    system.screen.currentShell ≠ 0 ∧
      ∃ res, oracle.below.kernel (shellSwitch system.screen.nextShell) system = (.ok res, after) := by
  constructor
  · intro run
    obtain ⟨kernel, switched, rfl⟩ := below_kernel_ok run
    unfold shellSwitchToNext getCurrentShell at switched
    rw [read_bind] at switched
    split at switched
    · cases switched
    next running =>
      rw [read_bind] at switched
      obtain ⟨res, middle, switch, returned⟩ := bind_eq_ok switched
      cases returned
      exact ⟨running, res, below_kernel_run switch⟩
  · rintro ⟨running, res, switch⟩
    obtain ⟨kernel, switched, rfl⟩ := below_kernel_ok switch
    apply below_kernel_run
    unfold shellSwitchToNext getCurrentShell
    rw [read_bind]
    refine (congrFun (if_neg running) _).trans ?_
    rw [read_bind]
    exact bind_ok switched

theorem shellInitialize_below_ok
    (run : oracle.below.kernel (shellInitialize shell) system = (.ok (), after)) :
    (system.screen.shellRecords shell).videoMem ≠ 0 ∧
      after = system.setScreen { system.screen with
        videoMems := Function.update system.screen.videoMems
          (system.screen.shellRecords shell).videoMem
          (blankRows (system.screen.videoMems (system.screen.shellRecords shell).videoMem)) } := by
  obtain ⟨kernel, drawn, rfl⟩ := below_kernel_ok run
  unfold shellInitialize at drawn
  rw [read_bind] at drawn
  split at drawn
  · cases drawn
  next nonnull =>
    cases drawn
    exact ⟨nonnull, rfl⟩

section Stages
variable {voices : Set Addr} {process : Addr} {record : Shell}

theorem ShellBuild.videoBuf (building : ShellBuild start voices shell record system)
    (run : oracle.below.shellVideoBuf shell system = (.ok (), after)) :
    system.SameProcesses after ∧ ∃ videoBuf,
      ShellBuild start voices shell { record with videoMem := videoBuf } after := by
  unfold Below.shellVideoBuf at run
  obtain ⟨videoBuf, allocated, alloc, rest⟩ := bind_eq_ok run
  rw [below_screen_bind] at rest
  cases rest
  refine ⟨?_, videoBuf, ?_⟩
  · rcases below_kzalloc_ok (by decide) alloc with ⟨_, rfl⟩ | ⟨_, _, rfl⟩ <;> exact ⟨rfl, rfl⟩
  rcases below_kzalloc_ok (by decide) alloc with ⟨null, rfl⟩ | ⟨nonnull, empty, rfl⟩
  · unfold Screen.clearVideoMem
    rw [if_pos null]
    exact building.setShell ({ · with videoMem := videoBuf }) (Or.inl null) building.terminal
  · have unused := (building.unused empty).1
    have marked : ShellBuild start voices shell record (system.mark videoBuf (.videoMem shell)) :=
      building.mark nonnull empty (by simp)
    have cleared : ShellBuild start voices shell record
        ((system.mark videoBuf (.videoMem shell)).setScreen (system.screen.clearVideoMem videoBuf)) := by
      unfold Screen.clearVideoMem
      rw [if_neg nonnull]
      apply marked.draw
      iterate 4 rfl
      intro ptr used
      have different : ptr ≠ videoBuf := fun same => used (same ▸ unused)
      exact Function.update_of_ne different _ _
    exact cleared.setShell ({ · with videoMem := videoBuf }) (Or.inr ⟨unused, by simp⟩) cleared.terminal

theorem ShellBuild.giveTerminal (building : ShellBuild start voices shell record system)
    (run : oracle.below.shellTerminal shell system = (.ok (), after)) :
    system.SameProcesses after ∧ ∃ terminal, terminal ≠ 0 ∧
      ShellBuild start voices shell { record with terminal := terminal } after := by
  unfold Below.shellTerminal at run
  obtain ⟨terminal, allocated, alloc, rest⟩ := bind_eq_ok run
  rcases below_kzalloc_ok (by decide) alloc with ⟨null, _⟩ | ⟨nonnull, empty, rfl⟩
  · rw [if_pos null] at rest
    cases rest
  rw [if_neg nonnull, below_screen_bind] at rest
  cases rest
  have marked : ShellBuild start voices shell record (system.mark terminal (.terminal shell)) :=
    building.mark nonnull empty (by simp)
  have placed : ShellBuild start voices shell record ((system.mark terminal (.terminal shell)).setScreen
      { system.screen with terminals := Function.update system.screen.terminals terminal ⟨0, 0⟩ }) := by
    apply marked.draw
    iterate 4 rfl
    exact fun _ _ => rfl
  refine ⟨⟨rfl, rfl⟩, terminal, nonnull, ?_⟩
  exact placed.setShell ({ · with terminal := terminal }) placed.buffer (Or.inr (by simp))

theorem ShellBuild.load (building : ShellBuild start {0} shell record system)
    (effect : LoadEffect system after) : ShellBuild start {0} shell record after := by
  apply building.offScreen effect.consistent effect.grows effect.screen (fun _ member => member)
  intro other
  exact (effect.shell other).imp_right (And.imp_left (fun empty => (building.unused empty).1))

theorem ShellBuild.switch {current : Addr} (building : ShellBuild start voices shell record system)
    (blocks : after.blocks = system.blocks)
    (tables : after.tables = { system.tables with currentProcess := current }) :
    ShellBuild start voices shell record after := by
  apply building.offScreen
  · apply building.consistent.retabled blocks <;> rw [tables]
    exact fun _ => ⟨.of_eq rfl, rfl⟩
  · exact System.Grows.congr blocks
  · rw [tables]
  · exact fun _ member => member
  · intro other
    rw [tables]
    exact Or.inl rfl

theorem ShellBuild.giveProcess (building : ShellBuild start {0} shell record system) {process : Addr}
    (new : start.blocks process = none) :
    ShellBuild start {0, shell} shell { record with process := process }
      ((system.setKernel (system.kernel.setProcess process ({ · with shell := shell }))).setScreen
        (system.screen.setShell shell ({ · with process := process }))) := by
  have linked : ShellBuild start {0, shell} shell record
      (system.setKernel (system.kernel.setProcess process ({ · with shell := shell }))) := by
    apply building.offScreen
    · exact building.consistent.setProcess (fun _ => ⟨rfl, rfl, rfl, rfl, rfl⟩) (fun _ => rfl)
    · exact System.Grows.congr rfl
    · rfl
    · exact fun _ member => Or.inl member
    · intro other
      by_cases same : other = process
      · right
        rw [same, System.setProcess_tables, Tables.setRecord_self]
        exact ⟨new, Or.inr rfl⟩
      · left
        rw [System.setProcess_tables, Tables.setRecord_other same]
  exact linked.setShell ({ · with process := process }) linked.buffer linked.terminal

theorem ShellBuild.serve (building : ShellBuild start voices shell record system)
    (served : Served process system after) : ShellBuild start voices shell record after :=
  building.offScreen served.consistent served.grows served.screen (fun _ member => member)
    (fun other => Or.inl (served.shell other))

theorem ShellBuild.blank (building : ShellBuild start voices shell record system)
    (run : oracle.below.kernel (shellInitialize shell) system = (.ok (), after)) :
    system.SameProcesses after ∧ record.videoMem ≠ 0 ∧ ShellBuild start voices shell record after := by
  obtain ⟨nonnull, drawn⟩ := shellInitialize_below_ok run
  rw [building.entry] at nonnull
  have unused := (building.buffer.resolve_left nonnull).1
  rw [drawn]
  refine ⟨⟨rfl, rfl⟩, nonnull, ?_⟩
  apply building.draw
  iterate 4 rfl
  intro ptr used
  have different : ptr ≠ record.videoMem := fun same => used (same ▸ unused)
  rw [building.entry]
  exact Function.update_of_ne different _ _


end Stages

theorem shellNew_outcome (consistent : Consistent ∅ start)
    (run : oracle.below.shellNew id start = (.ok (res, out), after)) :
    ShellOutcome start id res out after := by
  unfold Below.shellNew at run
  rw [below_read_bind] at run
  by_cases empty : start.screen.shells id = 0
  · have available : shellSlotAvailable start.kernel id = true := beq_iff_eq.mpr empty
    rw [available, if_neg (by decide)] at run
    obtain ⟨shell, marked, allocated, rest⟩ := bind_eq_ok run
    rcases below_kzalloc_ok (by decide) allocated with ⟨null, _⟩ | ⟨nonnull, fresh, rfl⟩
    · rw [if_pos null] at rest
      cases rest
    rw [if_neg nonnull, below_screen_bind] at rest
    have begun : ShellBuild start {0} shell ⟨id, 0, 0, 0⟩ _ := ShellBuild.begin consistent nonnull fresh id
    obtain ⟨_, buffered, giving, rest⟩ := bind_eq_ok rest
    obtain ⟨first, videoBuf, withBuffer⟩ := begun.videoBuf giving
    obtain ⟨_, furnished, giving, rest⟩ := bind_eq_ok rest
    obtain ⟨second, terminal, terminalNonnull, furnish⟩ := withBuffer.giveTerminal giving
    have same : start.SameProcesses furnished := System.SameProcesses.trans first second
    obtain ⟨⟨loadRes, process⟩, switched, loading, rest⟩ := bind_eq_ok rest
    obtain ⟨loaded, outcome, blocks, tables⟩ := processLoadSwitch_below_ok furnish.consistent loading
    have effect := outcome.effect furnish.consistent
    have current : ShellBuild start {0} shell ⟨id, videoBuf, terminal, 0⟩ switched :=
      (furnish.load effect).switch blocks tables
    dsimp only at rest
    split at rest
    next failed =>
      cases rest
      apply ShellOutcome.failed shell _ _ current
      · rw [tables]
        exact (outcome.refused failed).trans same.1
      · rw [tables]
        show (if loadRes = 0 then process else loaded.tables.currentProcess) = _
        rw [if_neg (by omega)]
        exact effect.current.trans same.2
    next succeeded =>
      rw [below_update_bind, below_screen_bind] at rest
      obtain ⟨processNonnull, own, i, bound, free, entered⟩ := outcome.entered (by omega)
      have new := (furnish.unused (outcome.fresh (by omega))).1
      have linked : ShellBuild start {0, shell} shell ⟨id, videoBuf, terminal, process⟩ _ :=
        current.giveProcess new
      obtain ⟨_, injected, injecting, rest⟩ := bind_eq_ok rest
      have record : switched.blocks process = some .process := by
        rw [blocks, own]
      have served := processInjectArguments_served [itoa id] linked.consistent record (by simp) injecting
      obtain ⟨_, blanked, initializing, rest⟩ := bind_eq_ok rest
      obtain ⟨kept, videoNonnull, ready⟩ := (linked.serve served).blank initializing
      have processes : blanked.tables.processes =
          Function.update start.tables.processes i process := by
        rw [kept.1, served.processes, ← same.1, ← entered]
        show switched.tables.processes = _
        rw [tables]
      have speaker : (blanked.tables.processRecords process).shell = shell := by
        rw [(shellInitialize_below_ok initializing).2]
        refine (served.shell process).trans ?_
        exact congrArg Process.shell (Tables.setRecord_self switched.tables process ({ · with shell := shell }))
      rw [same.1] at free
      rw [below_screen_bind] at rest
      obtain ⟨_, last, switching, returned⟩ := bind_eq_ok rest
      have here : Function.update blanked.screen.shells id shell id = shell :=
        Function.update_self _ _ _
      cases returned
      rcases shellSwitch_below_ok switching with ⟨null, _⟩ | ⟨_, _, blocks, tables⟩
      · exact absurd (here.symm.trans null) nonnull
      · apply ShellOutcome.made res out _ blanked after i (by omega) empty nonnull ready rfl
          (ready.buffer.resolve_left videoNonnull).2 (ready.terminal.resolve_left terminalNonnull)
          processNonnull speaker bound free processes blocks
        rw [tables, System.setScreen_tables, System.setScreen_screen]
        dsimp only
        rw [here, ready.entry]
  · have taken : shellSlotAvailable start.kernel id = false := beq_eq_false_iff_ne.mpr empty
    rw [taken] at run
    cases run
    exact .taken empty

end Calls

end PeachOS
