import PeachOS.ClassicKeyboard
import PeachOS.Readline

/-! What a process reads of the keys that are pressed: from scan codes to the lines of
`peachos_terminal_readline`. -/

namespace PeachOS
open Program Transition WriteLog

/-- The character that a scan code sends, and the process it is for. -/
def keystroke (past : Byte) (capslockState : Word) (process : Addr) (scancode : Byte) : List (Addr × Byte) :=
  match pressedKey past capslockState scancode with
  | none => []
  | some c => if process = 0 ∨ c = 0 ∨ c = backtick then [] else [(process, c)]

/-- The caps lock after these scan codes, each with the process that was current. -/
def capslockAt (capslockState : Word) (scanned : List (Addr × Byte)) : Word :=
  scanned.foldl (fun state scan => capslockAfter state scan.2) capslockState

/-- What these scan codes send. -/
def typedFrom (past : Byte) : Word → List (Addr × Byte) → List (Addr × Byte)
  | _, [] => []
  | capslockState, scan :: scanned =>
      keystroke past capslockState scan.1 scan.2 ++ typedFrom past (capslockAfter capslockState scan.2) scanned

def sentTo (process : Addr) (strokes : List (Addr × Byte)) : List Byte :=
  (strokes.filter (fun stroke => stroke.1 = process)).map Prod.snd

def typedTo (past : Byte) (capslockState : Word) (scanned : List (Addr × Byte)) (process : Addr) : List Byte :=
  sentTo process (typedFrom past capslockState scanned)

/-- The keys among what `peachos_getkey` returned. -/
def pressedOf (polls : List Byte) : List Byte := polls.filter (fun val => val ≠ 0)

section Strokes
variable {past : Byte} {capslockState : Word} {process : Addr}

theorem typedFrom_append (capslockState : Word) (scanned later : List (Addr × Byte)) :
    typedFrom past capslockState (scanned ++ later) =
      typedFrom past capslockState scanned ++ typedFrom past (capslockAt capslockState scanned) later := by
  induction scanned generalizing capslockState with
  | nil => rfl
  | cons scan scanned ih =>
    rw [List.cons_append, typedFrom, typedFrom, ih, List.append_assoc]
    rfl

theorem typedTo_snoc (scanned : List (Addr × Byte)) (scan : Addr × Byte) :
    typedTo past capslockState (scanned ++ [scan]) process = typedTo past capslockState scanned process ++
      sentTo process (keystroke past (capslockAt capslockState scanned) scan.1 scan.2) := by
  unfold typedTo
  rw [typedFrom_append, typedFrom, typedFrom, List.append_nil]
  unfold sentTo
  rw [List.filter_append, List.map_append]

theorem capslockAt_parity (scanned : List (Addr × Byte)) : capslockAt keyboardCapsLockOff scanned =
    if scanned.countP (fun scan => scan.2 = classicKeyboardCapslock) % 2 = 1 then keyboardCapsLockOn
    else keyboardCapsLockOff := by
  induction scanned using List.reverseRecOn with
  | nil => rfl
  | append_singleton scanned scan ih =>
    unfold capslockAt at ih ⊢
    rw [List.foldl_append, ih, List.countP_append, List.countP_singleton, List.foldl_cons, List.foldl_nil]
    unfold capslockAfter
    generalize scanned.countP (fun scan => scan.2 = classicKeyboardCapslock) = count
    by_cases key : scan.2 = classicKeyboardCapslock
    · rw [if_pos key, decide_eq_true key, if_pos (show true = true from rfl)]
      by_cases odd : count % 2 = 1
      · rw [if_pos odd, if_neg (show ¬(count + 1) % 2 = 1 by omega)]
        exact if_pos rfl
      · rw [if_neg odd, if_pos (show (count + 1) % 2 = 1 by omega)]
        exact if_neg (by decide)
    · rw [if_neg key, decide_eq_false key, if_neg Bool.false_ne_true, Nat.add_zero]

theorem typedTo_length (scanned : List (Addr × Byte)) :
    (typedTo past capslockState scanned process).length ≤ scanned.length := by
  induction scanned using List.reverseRecOn with
  | nil => exact le_rfl
  | append_singleton scanned scan ih =>
    have one : (keystroke past (capslockAt capslockState scanned) scan.1 scan.2).length ≤ 1 := by
      unfold keystroke
      split
      · exact Nat.zero_le _
      · split
        · exact Nat.zero_le _
        · exact le_rfl
    have sent := (List.filter_sublist (p := fun stroke => stroke.1 = process)
      (l := keystroke past (capslockAt capslockState scanned) scan.1 scan.2)).length_le
    rw [typedTo_snoc, List.length_append, List.length_append, List.length_singleton]
    unfold sentTo
    rw [List.length_map]
    omega

end Strokes

/-- The kernel and its keyboard, the scan codes that came with the process that was current at each, and what
`peachos_getkey` returned to each process. -/
structure Typed where
  typing : Typing
  scanned : List (Addr × Byte)
  polled : Addr → List Byte

/-- Scan codes and polls in any order, with switches of the current process and of the running task. -/
inductive TypeStep (past : Byte) : Typed → Typed → Prop
  | interrupt {typed : Typed} {after : Typing} (kernelChunk : Addr) (scancode : Byte)
      (run : classicKeyboardInterruptHandler kernelChunk past scancode typed.typing = (.ok (), after)) :
      TypeStep past typed ⟨after, typed.scanned ++ [(typed.typing.kernel.currentProcess, scancode)], typed.polled⟩
  | poll {typed : Typed} {after : Kernel} (c : Byte) (run : keyboardPop typed.typing.kernel = (.ok c, after)) :
      TypeStep past typed ⟨{ typed.typing with kernel := after }, typed.scanned,
        Function.update typed.polled typed.typing.kernel.owner (typed.polled typed.typing.kernel.owner ++ [c])⟩
  | switch {typed : Typed} {after : Kernel} (process : Addr)
      (run : processSwitch process typed.typing.kernel = (.ok (), after)) :
      TypeStep past typed ⟨{ typed.typing with kernel := after }, typed.scanned, typed.polled⟩
  | run {typed : Typed} {after : Kernel} (task : Addr)
      (run : taskSwitch task typed.typing.kernel = (.ok (), after)) :
      TypeStep past typed ⟨{ typed.typing with kernel := after }, typed.scanned, typed.polled⟩

/-- What went through the keyboard buffers. -/
def Typed.keys (past : Byte) (capslockState : Word) (typed : Typed) : Keys where
  kernel := typed.typing.kernel
  pushed := typedTo past capslockState typed.scanned
  popped := fun process => pressedOf (typed.polled process)

section Steps
variable {past : Byte} {capslockState : Word} {before after : Typed}

theorem Keys.Delivering.congr {keys : Keys} {kernel : Kernel} (held : keys.Delivering)
    (same : kernel.processRecords = keys.kernel.processRecords) : Keys.Delivering { keys with kernel := kernel } := by
  obtain ⟨queues, hold, split⟩ := held
  exact ⟨queues, hold.congr same, split⟩

theorem sentTo_nil (process : Addr) : sentTo process [] = [] := rfl

theorem keystroke_blank {process : Addr} {scancode : Byte} {state : Word}
    (blank : ∀ c, pressedKey past state scancode = some c → c = 0 ∨ c = backtick) :
    keystroke past state process scancode = [] := by
  unfold keystroke
  cases pressed : pressedKey past state scancode with
  | none => rfl
  | some c => exact if_pos (Or.inr (blank c pressed))

theorem sentTo_keystroke {process current : Addr} {scancode c : Byte} {state : Word}
    (pressed : pressedKey past state scancode = some c) (proper : ¬(c = 0 ∨ c = backtick)) (text : Addr → List Byte) :
    text process ++ sentTo process (keystroke past state current scancode) =
      (if current = 0 ∨ c = 0 then text else Function.update text current (text current ++ [c])) process := by
  obtain ⟨nonzero, _⟩ := not_or.mp proper
  unfold keystroke
  rw [pressed]
  dsimp only
  by_cases null : current = 0
  · rw [if_pos (Or.inl null), if_pos (Or.inl null)]
    exact List.append_nil _
  · rw [if_neg (not_or.mpr ⟨null, proper⟩), if_neg (not_or.mpr ⟨null, nonzero⟩)]
    unfold sentTo
    by_cases here : process = current
    · rw [here, Function.update_self, List.filter_cons_of_pos (by simp)]
      rfl
    · rw [Function.update_of_ne here, List.filter_cons_of_neg (by simpa using Ne.symm here)]
      exact List.append_nil _

theorem TypeStep.capslock (step : TypeStep past before after)
    (lock : before.typing.capslockState = capslockAt capslockState before.scanned) :
    after.typing.capslockState = capslockAt capslockState after.scanned := by
  cases step with
  | interrupt kernelChunk scancode run =>
    unfold capslockAt at lock ⊢
    rw [(classicKeyboardInterruptHandler_ok run).1, List.foldl_append, ← lock]
    rfl
  | poll | switch | run => exact lock

theorem TypeStep.delivering (step : TypeStep past before after)
    (lock : before.typing.capslockState = capslockAt capslockState before.scanned)
    (bounded : (after.keys past capslockState).Bounded)
    (held : (before.keys past capslockState).Delivering) : (after.keys past capslockState).Delivering := by
  cases step with
  | interrupt kernelChunk scancode run =>
    obtain ⟨_, effect⟩ := classicKeyboardInterruptHandler_ok run
    have sent : ∀ process, typedTo past capslockState
        (before.scanned ++ [(before.typing.kernel.currentProcess, scancode)]) process =
          typedTo past capslockState before.scanned process ++ sentTo process
            (keystroke past before.typing.capslockState before.typing.kernel.currentProcess scancode) := by
      intro process
      rw [typedTo_snoc, lock]
    have quiet : (∀ c, pressedKey past before.typing.capslockState scancode = some c → c = 0 ∨ c = backtick) →
        typedTo past capslockState (before.scanned ++ [(before.typing.kernel.currentProcess, scancode)]) =
          typedTo past capslockState before.scanned := by
      intro blank
      funext process
      rw [sent, keystroke_blank blank, sentTo_nil, List.append_nil]
    unfold Typed.keys at bounded ⊢
    dsimp only at bounded ⊢
    cases pressed : pressedKey past before.typing.capslockState scancode with
    | none =>
      rw [pressed] at effect
      rw [quiet (fun c other => by rw [pressed] at other; cases other)]
      exact held.congr effect
    | some c =>
      rw [pressed] at effect
      dsimp only at effect
      by_cases blank : c = 0 ∨ c = backtick
      · rw [if_pos blank] at effect
        rw [quiet (fun d other => by rw [pressed] at other; cases other; exact blank)]
        exact held.congr effect
      · rw [if_neg blank] at effect
        obtain ⟨paged, pushed, records, current, push, kept⟩ := effect
        rw [← current] at sent bounded ⊢
        have same := funext (fun process => (sent process).trans (sentTo_keystroke pressed blank _))
        rw [same] at bounded ⊢
        have ready : Keys.Delivering ⟨paged, typedTo past capslockState before.scanned,
          fun process => pressedOf (before.polled process)⟩ := held.congr records
        exact ((KeyStep.push c push).delivering bounded ready).congr kept
  | poll c run =>
    have popped : (fun process => pressedOf (Function.update before.polled before.typing.kernel.owner
        (before.polled before.typing.kernel.owner ++ [c]) process)) =
        if c = 0 then fun process => pressedOf (before.polled process)
        else Function.update (fun process => pressedOf (before.polled process)) before.typing.kernel.owner
          (pressedOf (before.polled before.typing.kernel.owner) ++ [c]) := by
      funext process
      by_cases here : process = before.typing.kernel.owner
      · rw [here, Function.update_self]
        unfold pressedOf
        rw [List.filter_append]
        by_cases idle : c = 0
        · rw [if_pos idle, List.filter_cons_of_neg (by simpa using idle), List.filter_nil, List.append_nil]
        · rw [if_neg idle, Function.update_self, List.filter_cons_of_pos (by simpa using idle), List.filter_nil]
      · rw [Function.update_of_ne here]
        split
        · rfl
        · rw [Function.update_of_ne here]
    unfold Typed.keys at bounded ⊢
    dsimp only at bounded ⊢
    rw [popped] at bounded ⊢
    exact (KeyStep.pop c run).delivering bounded held
  | switch process run => exact (KeyStep.switch process run).delivering bounded held
  | run task run => exact (KeyStep.run task run).delivering bounded held

end Steps

/-- No code came yet, and every keyboard buffer is empty. -/
structure Typed.Fresh (typed : Typed) : Prop where
  scanned : typed.scanned = []
  polled : typed.polled = fun _ => []
  blank : ∀ process, ∀ i < peachosKeyboardBufferSize, (typed.typing.kernel.keyboard process).buffer i = 0
  level : ∀ process, (typed.typing.kernel.keyboard process).tail = (typed.typing.kernel.keyboard process).head

section Lines
variable {max : Int} {line polls later : List Byte}

theorem editedLine_full (full : max - 1 ≤ (line.length : Int)) (polls : List Byte) :
    editedLine max line polls = (true, line) := by
  cases polls with
  | nil => rw [editedLine, decide_eq_true full]
  | cons val polls => rw [editedLine, if_pos full]

/-- The edited line is that of the keys alone. -/
theorem editedLine_pressedOf (max : Int) (line polls : List Byte) :
    editedLine max line (pressedOf polls) = editedLine max line polls := by
  induction polls generalizing line with
  | nil => rfl
  | cons val polls ih =>
    unfold pressedOf at ih ⊢
    by_cases idle : val = 0
    · rw [List.filter_cons_of_neg (by simpa using idle), ih, editedLine, if_pos idle]
      split
      next full => exact editedLine_full full polls
      next => rfl
    · rw [List.filter_cons_of_pos (by simpa using idle), editedLine, editedLine, ih, ih]

theorem editedLine_append (ended : (editedLine max line polls).1 = true) (later : List Byte) :
    editedLine max line (polls ++ later) = editedLine max line polls := by
  induction polls generalizing line with
  | nil =>
    have full : max - 1 ≤ (line.length : Int) := of_decide_eq_true ended
    rw [List.nil_append, editedLine_full full, editedLine_full full]
  | cons val polls ih =>
    rw [List.cons_append, editedLine, editedLine]
    rw [editedLine] at ended
    split
    · rfl
    next room =>
      rw [if_neg room] at ended
      split
      next idle =>
        rw [if_pos idle] at ended
        exact ih ended
      next pressed =>
        rw [if_neg pressed] at ended
        split
        · rfl
        next ordinary =>
          rw [if_neg ordinary] at ended
          exact ih ended

theorem backspacesErase_pressedOf (max : Int) (line polls : List Byte) :
    BackspacesErase max line (pressedOf polls) ↔ BackspacesErase max line polls := by
  induction polls generalizing line with
  | nil => rfl
  | cons val polls ih =>
    unfold pressedOf at ih ⊢
    by_cases idle : val = 0
    · rw [List.filter_cons_of_neg (by simpa using idle), ih]
      conv_rhs => unfold BackspacesErase
      rw [if_pos idle]
      split
      next full =>
        refine iff_of_true ?_ trivial
        cases polls with
        | nil => trivial
        | cons val polls =>
          unfold BackspacesErase
          rw [if_pos full]
          trivial
      next => rfl
    · rw [List.filter_cons_of_pos (by simpa using idle)]
      unfold BackspacesErase
      rw [ih, ih]

end Lines

/-- Over any interleaving of scan codes, polls and switches, what a process has read of the keyboard, followed by what
is still in its buffer, is what was typed while it was the current process, with the caps lock on after every odd
number of its key; and each line that the process reads, wherever in the text the line begins, is the typed text from
there on, edited. -/
theorem typed_line {past : Byte} {start last : Typed} (fresh : start.Fresh)
    (run : Run (fun before after => TypeStep past before after ∧
      (after.keys past start.typing.capslockState).Bounded) start last) (process : Addr) :
    pressedOf (last.polled process) ++ (last.typing.kernel.keyboard process).unread =
      typedTo past start.typing.capslockState last.scanned process ∧
    (start.typing.capslockState = keyboardCapsLockOff → last.typing.capslockState =
      if last.scanned.countP (fun scan => scan.2 = classicKeyboardCapslock) % 2 = 1 then keyboardCapsLockOn
      else keyboardCapsLockOff) ∧
    ∀ (max : Int) (outputWhileTyping : Bool) (out : Int → Byte) (earlier polls : List Byte), 1 ≤ max →
      last.polled process = earlier ++ polls →
      BackspacesErase max [] ((typedTo past start.typing.capslockState last.scanned process).drop
        (pressedOf earlier).length) →
      (peachosTerminalReadline max outputWhileTyping polls).1 = true →
      lineIn out (peachosTerminalReadline max outputWhileTyping polls).2 =
        (editedLine max [] ((typedTo past start.typing.capslockState last.scanned process).drop
          (pressedOf earlier).length)).2 := by
  have begins : (start.keys past start.typing.capslockState).Delivering := by
    apply Keys.Fresh.delivering
    constructor
    · unfold Typed.keys
      rw [fresh.scanned]
      rfl
    · unfold Typed.keys
      rw [fresh.polled]
      rfl
    · exact fresh.blank
    · exact fresh.level
  have lock : start.typing.capslockState = capslockAt start.typing.capslockState start.scanned := by
    rw [fresh.scanned]
    rfl
  obtain ⟨locked, queues, hold, split⟩ := run.invariant (fun typed : Typed =>
    typed.typing.capslockState = capslockAt start.typing.capslockState typed.scanned ∧
      (typed.keys past start.typing.capslockState).Delivering)
    (fun _ _ held step => ⟨step.1.capslock held.1, step.1.delivering held.1 step.2 held.2⟩) ⟨lock, begins⟩
  have typed : pressedOf (last.polled process) ++ (last.typing.kernel.keyboard process).unread =
      typedTo past start.typing.capslockState last.scanned process := by
    have unread : (last.typing.kernel.keyboard process).unread = queues process := (hold process).eq
    rw [unread]
    exact split process
  refine ⟨typed, ?_, ?_⟩
  · intro off
    rw [locked, off, capslockAt_parity]
  intro max outputWhileTyping out earlier polls positive polled erases returned
  have rest : (typedTo past start.typing.capslockState last.scanned process).drop (pressedOf earlier).length =
      pressedOf polls ++ (last.typing.kernel.keyboard process).unread := by
    rw [← typed, polled]
    unfold pressedOf
    rw [List.filter_append, List.append_assoc, List.drop_left]
  rw [rest] at erases ⊢
  have edits := (backspacesErase_pressedOf max [] polls).mp (erases.shorter (List.prefix_append _ _))
  obtain ⟨_, _, line⟩ := edits.readsLine positive outputWhileTyping out
  obtain ⟨ended, same, _⟩ := line returned
  rw [same, editedLine_append, editedLine_pressedOf]
  rw [editedLine_pressedOf]
  exact ended

/-- A process that runs and is current, with an address space. -/
def typingKernel : Kernel :=
  { keyboardKernel with tasks := fun _ => { Task.zero with process := 0x900000, pageDirectory := 0x902000 } }

def typingStart : Typed := ⟨⟨typingKernel, keyboardCapsLockOff⟩, [], fun _ => []⟩

theorem Typed.bounded {past : Byte} {capslockState : Word} {typed : Typed}
    (short : typed.scanned.length ≤ peachosKeyboardBufferSize) : (typed.keys past capslockState).Bounded := by
  intro process
  have sent : (typedTo past capslockState typed.scanned process).length ≤ typed.scanned.length :=
    typedTo_length typed.scanned
  change (typedTo past capslockState typed.scanned process).length ≤ _
  omega

/-- A scan code comes. -/
def Typed.scan (typed : Typed) (scancode : Byte) : Typed :=
  ⟨(classicKeyboardInterruptHandler 0x903000 0 scancode typed.typing).2,
    typed.scanned ++ [(typed.typing.kernel.currentProcess, scancode)], typed.polled⟩

/-- The running task gets `c` from `peachos_getkey`. -/
def Typed.poll (typed : Typed) (c : Byte) : Typed :=
  ⟨{ typed.typing with kernel := (keyboardPop typed.typing.kernel).2 }, typed.scanned,
    Function.update typed.polled typed.typing.kernel.owner (typed.polled typed.typing.kernel.owner ++ [c])⟩

def typingEnd : Typed := (((typingStart.scan 0x1e).poll 0x61).scan 0x1c).poll carriageReturn

/-- The key A and the return key, each read at once. -/
theorem typed_line_letter : typingEnd.polled 0x900000 = [0x61, carriageReturn] ∧
    lineIn (fun _ => 0) (peachosTerminalReadline 1024 true [0x61, carriageReturn]).2 =
      (editedLine 1024 [] (typedTo 0 keyboardCapsLockOff typingEnd.scanned 0x900000)).2 := by
  have fresh : typingStart.Fresh := ⟨rfl, rfl, fun _ _ _ => rfl, fun _ => rfl⟩
  have first : TypeStep 0 typingStart (typingStart.scan 0x1e) := .interrupt 0x903000 0x1e (run_of_result (by decide +kernel))
  have second : TypeStep 0 _ ((typingStart.scan 0x1e).poll 0x61) := .poll 0x61 (run_of_result (by decide +kernel))
  have third : TypeStep 0 _ (((typingStart.scan 0x1e).poll 0x61).scan 0x1c) :=
    .interrupt 0x903000 0x1c (run_of_result (by decide +kernel))
  have last : TypeStep 0 _ typingEnd := .poll carriageReturn (run_of_result (by decide +kernel))
  have run : Run (fun before after => TypeStep 0 before after ∧ (after.keys 0 keyboardCapsLockOff).Bounded)
      typingStart typingEnd :=
    (((Relation.ReflTransGen.single ⟨first, Typed.bounded (by decide +kernel)⟩).tail
      ⟨second, Typed.bounded (by decide +kernel)⟩).tail ⟨third, Typed.bounded (by decide +kernel)⟩).tail
      ⟨last, Typed.bounded (by decide +kernel)⟩
  have polled : typingEnd.polled 0x900000 = [0x61, carriageReturn] := by decide +kernel
  refine ⟨polled, ?_⟩
  exact (typed_line fresh run 0x900000).2.2 1024 true (fun _ => 0) [] _ (by decide) polled (by decide +kernel)
    (by decide)

end PeachOS
