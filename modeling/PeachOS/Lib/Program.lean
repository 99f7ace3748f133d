import Mathlib.Logic.Basic

/-! Programs over a state that return a result or stop, and the properties of the state that
they keep. -/

namespace Program
variable {σ ε α β : Type}

/-- The state is kept when the program stops. -/
def Prog (σ ε α : Type) : Type := σ → Except ε α × σ

def Prog.bind (program : Prog σ ε α) (next : α → Prog σ ε β) : Prog σ ε β := fun state =>
  match program state with
  | (.ok result, after) => next result after
  | (.error stop, after) => (.error stop, after)

instance : Monad (Prog σ ε) where
  pure result := fun state => (.ok result, state)
  bind := Prog.bind

def read (part : σ → α) : Prog σ ε α := fun state => (.ok (part state), state)

def update (change : σ → σ) : Prog σ ε Unit := fun state => (.ok (), change state)

/-- An assignment under a condition. -/
def updateWhen (condition : σ → Prop) [DecidablePred condition] (change : σ → σ) : Prog σ ε Unit :=
  update (fun state => if condition state then change state else state)

def stop (reason : ε) : Prog σ ε α := fun state => (.error reason, state)

section Runs
variable {program : Prog σ ε α} {next : α → Prog σ ε β} {state : σ}

@[simp] theorem pure_run (result : α) (state : σ) :
    (pure result : Prog σ ε α) state = (.ok result, state) := rfl

@[simp] theorem read_run (part : σ → α) (state : σ) :
    (read part : Prog σ ε α) state = (.ok (part state), state) := rfl

@[simp] theorem update_run (change : σ → σ) (state : σ) :
    (update change : Prog σ ε Unit) state = (.ok (), change state) := rfl

@[simp] theorem stop_run (reason : ε) (state : σ) :
    (stop reason : Prog σ ε α) state = (.error reason, state) := rfl

theorem bind_run (program : Prog σ ε α) (next : α → Prog σ ε β) (state : σ) :
    (program >>= next) state = match program state with
      | (.ok result, after) => next result after
      | (.error reason, after) => (.error reason, after) := rfl

theorem bind_ok {result : α} {after : σ} (first : program state = (.ok result, after)) :
    (program >>= next) state = next result after := by
  rw [bind_run, first]

theorem bind_error {reason : ε} {after : σ} (first : program state = (.error reason, after)) :
    (program >>= next) state = (.error reason, after) := by
  rw [bind_run, first]

@[simp] theorem read_bind (part : σ → α) (next : α → Prog σ ε β) (state : σ) :
    (read part >>= next) state = next (part state) state := rfl

@[simp] theorem update_bind (change : σ → σ) (next : Unit → Prog σ ε β) (state : σ) :
    (update change >>= next) state = next () (change state) := rfl

@[simp] theorem updateWhen_bind (condition : σ → Prop) [DecidablePred condition] (change : σ → σ)
    (next : Unit → Prog σ ε β) (state : σ) : (updateWhen condition change >>= next) state =
      next () (if condition state then change state else state) := rfl

@[simp] theorem pure_bind_run (result : α) (next : α → Prog σ ε β) (state : σ) :
    ((pure result : Prog σ ε α) >>= next) state = next result state := rfl

@[simp] theorem stop_bind (reason : ε) (next : α → Prog σ ε β) (state : σ) :
    ((stop reason : Prog σ ε α) >>= next) state = (.error reason, state) := rfl

theorem bind_eq_ok {result : β} {after : σ} (run : (program >>= next) state = (.ok result, after)) :
    ∃ first middle, program state = (.ok first, middle) ∧ next first middle = (.ok result, after) := by
  rw [bind_run] at run
  split at run
  next first middle same => exact ⟨first, middle, same, run⟩
  next => cases run

theorem bind_congr {other : α → Prog σ ε β}
    (same : ∀ result after, program state = (.ok result, after) → next result after = other result after) :
    (program >>= next) state = (program >>= other) state := by
  rw [bind_run, bind_run]
  split
  next result after run => exact same result after run
  next => rfl

theorem bind_assoc_run {γ : Type} (program : Prog σ ε α) (next : α → Prog σ ε β) (last : β → Prog σ ε γ) (state : σ) :
    ((program >>= next) >>= last) state = (program >>= fun result => next result >>= last) state := by
  rcases found : program state with ⟨result | result, after⟩
  · rw [bind_error found, bind_error (bind_error found)]
  · rw [bind_ok found, bind_run, bind_ok found]
    rfl

theorem run_of_result {result : Except ε α} (same : (program state).1 = result) :
    program state = (result, (program state).2) := Prod.ext same rfl

end Runs

/-- The program keeps `invariant`, however it ends. -/
def Keeps (invariant : σ → Prop) (program : Prog σ ε α) : Prop :=
  ∀ state, invariant state → invariant (program state).2

section Keeps
variable {invariant : σ → Prop} {program : Prog σ ε α} {next : α → Prog σ ε β}

theorem Keeps.pure (result : α) : Keeps invariant (pure result : Prog σ ε α) :=
  fun _ held => held

theorem Keeps.read (part : σ → α) : Keeps invariant (read part : Prog σ ε α) :=
  fun _ held => held

theorem Keeps.stop (reason : ε) : Keeps invariant (stop reason : Prog σ ε α) :=
  fun _ held => held

theorem Keeps.update {change : σ → σ} (kept : ∀ state, invariant state → invariant (change state)) :
    Keeps invariant (update change : Prog σ ε Unit) := kept

theorem Keeps.bind (first : Keeps invariant program)
    (rest : ∀ result, Keeps invariant (next result)) : Keeps invariant (program >>= next) := by
  intro state held
  have middle := first state held
  rw [bind_run]
  split
  next result after same =>
    rw [same] at middle
    exact rest result after middle
  next reason after same =>
    rw [same] at middle
    exact middle

theorem Keeps.ite {condition : Prop} [Decidable condition] {other : Prog σ ε α}
    (yes : Keeps invariant program) (no : Keeps invariant other) :
    Keeps invariant (if condition then program else other) := by
  split
  · exact yes
  · exact no

end Keeps

/-- Every run of the program that returns keeps `invariant`. -/
def Preserves (invariant : σ → Prop) (program : Prog σ ε α) : Prop :=
  ∀ state result after, invariant state → program state = (.ok result, after) → invariant after

section Preserves
variable {invariant : σ → Prop} {program : Prog σ ε α} {next : α → Prog σ ε β}

theorem Preserves.pure (result : α) : Preserves invariant (pure result : Prog σ ε α) := by
  intro state result after held run
  cases run
  exact held

theorem Preserves.read (part : σ → α) : Preserves invariant (read part : Prog σ ε α) := by
  intro state result after held run
  cases run
  exact held

theorem Preserves.stop (reason : ε) : Preserves invariant (stop reason : Prog σ ε α) := by
  intro state result after held run
  cases run

theorem Preserves.update {change : σ → σ}
    (kept : ∀ state, invariant state → invariant (change state)) :
    Preserves invariant (update change : Prog σ ε Unit) := by
  intro state result after held run
  cases run
  exact kept state held

theorem Preserves.bind (first : Preserves invariant program)
    (rest : ∀ result, Preserves invariant (next result)) :
    Preserves invariant (program >>= next) := by
  intro state result after held run
  obtain ⟨value, middle, firstRun, restRun⟩ := bind_eq_ok run
  exact rest value middle result after (first state value middle held firstRun) restRun

theorem Preserves.ite {condition : Prop} [Decidable condition] {other : Prog σ ε α}
    (yes : Preserves invariant program) (no : Preserves invariant other) :
    Preserves invariant (if condition then program else other) := by
  split
  · exact yes
  · exact no

end Preserves

/-- Whatever the program returns is as `holds` says. -/
def Yields (holds : α → Prop) (program : Prog σ ε α) : Prop :=
  ∀ state result after, program state = (.ok result, after) → holds result

section Yields
variable {holds : β → Prop} {program : Prog σ ε α} {next : α → Prog σ ε β}

theorem Yields.pure {result : β} (held : holds result) : Yields holds (pure result : Prog σ ε β) := by
  intro state value after run
  cases run
  exact held

theorem Yields.bind (rest : ∀ result, Yields holds (next result)) : Yields holds (program >>= next) := by
  intro state result after run
  obtain ⟨value, middle, _, restRun⟩ := bind_eq_ok run
  exact rest value middle result after restRun

theorem Yields.ite {condition : Prop} [Decidable condition] {yes no : Prog σ ε β} (first : Yields holds yes)
    (second : Yields holds no) : Yields holds (if condition then yes else no) := by
  split
  · exact first
  · exact second

end Yields

end Program
