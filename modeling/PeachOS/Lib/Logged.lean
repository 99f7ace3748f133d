import Mathlib.Data.Multiset.AddSub
import PeachOS.Lib.Program

/-! Programs that write a log beside what they do, and logs of allocations: what is still owned
after one, if all that is given back in it was owned. -/

namespace Program
variable {σ ε ω α β : Type}

/-- A program that returns its log with its result. -/
structure Logged (σ ε ω α : Type) where
  run : Prog σ ε (α × List ω)

/-- The logs are written one after the other. -/
def Logged.bind (program : Logged σ ε ω α) (next : α → Logged σ ε ω β) : Logged σ ε ω β where
  run := do
    let (first, log) ← program.run
    let (result, rest) ← (next first).run
    pure (result, log ++ rest)

instance : Monad (Logged σ ε ω) where
  pure result := ⟨pure (result, [])⟩
  bind := Logged.bind

def Logged.note (entry : α → ω) (program : Prog σ ε α) : Logged σ ε ω α where
  run := do
    let result ← program
    pure (result, [entry result])

/-- A program that writes no log. -/
instance : MonadLift (Prog σ ε) (Logged σ ε ω) where
  monadLift program := ⟨do
    let result ← program
    pure (result, [])⟩

def Logged.forget (program : Logged σ ε ω α) : Prog σ ε α := do
  let (result, _) ← program.run
  pure result

section Logged
variable {program : Logged σ ε ω α} {next : α → Logged σ ε ω β} {plain : Prog σ ε α} {state after : σ}

theorem logged_pure_ok {value result : α} {log : List ω}
    (run : (pure value : Logged σ ε ω α).run state = (.ok (result, log), after)) :
    result = value ∧ log = [] ∧ after = state := by
  cases run
  exact ⟨rfl, rfl, rfl⟩

theorem logged_bind_ok {result : β} {log : List ω}
    (run : (program >>= next).run state = (.ok (result, log), after)) :
    ∃ value first middle rest, log = first ++ rest ∧ program.run state = (.ok (value, first), middle) ∧
      (next value).run middle = (.ok (result, rest), after) := by
  obtain ⟨⟨value, first⟩, middle, begun, steps⟩ := bind_eq_ok run
  obtain ⟨⟨_, rest⟩, last, ended, steps⟩ := bind_eq_ok steps
  cases steps
  exact ⟨value, first, middle, rest, rfl, begun, ended⟩

theorem logged_lift_ok {result : α} {log : List ω}
    (run : (liftM plain : Logged σ ε ω α).run state = (.ok (result, log), after)) :
    log = [] ∧ plain state = (.ok result, after) := by
  obtain ⟨_, middle, begun, steps⟩ := bind_eq_ok run
  cases steps
  exact ⟨rfl, begun⟩

theorem logged_lift_bind_ok {result : β} {log : List ω}
    (run : ((liftM plain : Logged σ ε ω α) >>= next).run state = (.ok (result, log), after)) :
    ∃ value middle, plain state = (.ok value, middle) ∧ (next value).run middle = (.ok (result, log), after) := by
  obtain ⟨value, first, middle, rest, same, begun, ended⟩ := logged_bind_ok run
  obtain ⟨rfl, plainRun⟩ := logged_lift_ok begun
  rw [same, List.nil_append]
  exact ⟨value, middle, plainRun, ended⟩

theorem logged_note_ok {entry : α → ω} {result : α} {log : List ω}
    (run : (Logged.note entry plain).run state = (.ok (result, log), after)) :
    log = [entry result] ∧ plain state = (.ok result, after) := by
  obtain ⟨_, middle, begun, steps⟩ := bind_eq_ok run
  cases steps
  exact ⟨rfl, begun⟩

theorem logged_bind_run {value : α} {result : β} {first rest : List ω} {middle : σ}
    (begun : program.run state = (.ok (value, first), middle))
    (ended : (next value).run middle = (.ok (result, rest), after)) :
    (program >>= next).run state = (.ok (result, first ++ rest), after) :=
  (bind_ok begun).trans ((bind_ok ended).trans rfl)

theorem logged_lift_run {result : α} (run : plain state = (.ok result, after)) :
    (liftM plain : Logged σ ε ω α).run state = (.ok (result, []), after) := (bind_ok run).trans rfl

theorem logged_lift_bind_run {value : α} {result : β} {log : List ω} {middle : σ}
    (begun : plain state = (.ok value, middle))
    (ended : (next value).run middle = (.ok (result, log), after)) :
    ((liftM plain : Logged σ ε ω α) >>= next).run state = (.ok (result, log), after) :=
  logged_bind_run (logged_lift_run begun) ended

theorem logged_note_run {entry : α → ω} {result : α} (run : plain state = (.ok result, after)) :
    (Logged.note entry plain).run state = (.ok (result, [entry result]), after) := (bind_ok run).trans rfl

theorem forget_ok {result : α} {log : List ω} (run : program.run state = (.ok (result, log), after)) :
    program.forget state = (.ok result, after) :=
  (bind_ok run).trans rfl

theorem forget_eq_ok {result : α} (run : program.forget state = (.ok result, after)) :
    ∃ log, program.run state = (.ok (result, log), after) := by
  obtain ⟨⟨_, log⟩, middle, begun, steps⟩ := bind_eq_ok run
  cases steps
  exact ⟨log, begun⟩

@[simp] theorem forget_pure (result : α) : (pure result : Logged σ ε ω α).forget = pure result := rfl

@[simp] theorem forget_lift (plain : Prog σ ε α) : (liftM plain : Logged σ ε ω α).forget = plain := by
  funext state
  change ((plain >>= fun result => pure (result, ([] : List ω))) >>= fun pair => pure pair.1) state = _
  rw [bind_run, bind_run]
  rcases plain state with ⟨_ | _, _⟩ <;> rfl

@[simp] theorem forget_note (entry : α → ω) (plain : Prog σ ε α) : (Logged.note entry plain).forget = plain := by
  funext state
  change ((plain >>= fun result => pure (result, [entry result])) >>= fun pair => pure pair.1) state = _
  rw [bind_run, bind_run]
  rcases plain state with ⟨_ | _, _⟩ <;> rfl

@[simp] theorem forget_bind (program : Logged σ ε ω α) (next : α → Logged σ ε ω β) :
    (program >>= next).forget = program.forget >>= fun result => (next result).forget := by
  funext state
  change ((program.run >>= fun first => (next first.1).run >>= fun rest => pure (rest.1, first.2 ++ rest.2)) >>=
    fun pair => pure pair.1) state = ((program.run >>= fun pair => pure pair.1) >>= _) state
  rw [bind_run, bind_run, bind_run, bind_run]
  rcases program.run state with ⟨_ | ⟨first, log⟩, middle⟩
  · rfl
  · dsimp only
    rw [bind_run]
    change _ = ((next first).run >>= fun pair => pure pair.1) middle
    rw [bind_run]
    rcases (next first).run middle with ⟨_ | _, _⟩ <;> rfl

@[simp] theorem forget_ite {condition : Prop} [Decidable condition] (program other : Logged σ ε ω α) :
    (if condition then program else other).forget = if condition then program.forget else other.forget := by
  split <;> rfl

end Logged

/-- What is handed out, and what is given back. -/
inductive Event (ι : Type) where
  | alloc (item : ι)
  | free (item : ι)
  deriving DecidableEq

/-- What is owned after a log, or nothing if the log gives back what is not owned then: what was
never handed out, or was given back before. -/
def settle {ι : Type} [DecidableEq ι] : List (Event ι) → Multiset ι → Option (Multiset ι)
  | [], owned => some owned
  | .alloc item :: rest, owned => settle rest (item ::ₘ owned)
  | .free item :: rest, owned => if item ∈ owned then settle rest (owned.erase item) else none

section Ledger
variable {ι : Type} [DecidableEq ι] {owned later : Multiset ι} {first second : List (Event ι)} {item : ι}

theorem settle_append (first second : List (Event ι)) (owned : Multiset ι) :
    settle (first ++ second) owned = (settle first owned).bind (settle second) := by
  induction first generalizing owned with
  | nil => rfl
  | cons event first ih =>
    cases event with
    | alloc item => exact ih _
    | free item =>
      rw [List.cons_append, settle, settle]
      split
      · exact ih _
      · rfl

theorem settle_trans {last : Multiset ι} (early : settle first owned = some later)
    (late : settle second later = some last) : settle (first ++ second) owned = some last := by
  rw [settle_append, early, Option.bind_some, late]

theorem settle_free (member : item ∈ owned) : settle [.free item] owned = some (owned.erase item) := by
  rw [settle, if_pos member]
  rfl

end Ledger

end Program
