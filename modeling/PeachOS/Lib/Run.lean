import Mathlib.Logic.Relation

/-! Invariants of finite runs of a step relation, and runs that another system can follow. -/

namespace Transition
variable {State : Type*} {step : State → State → Prop}

abbrev Run (step : State → State → Prop) : State → State → Prop := Relation.ReflTransGen step

/-- A property of the first state that every step keeps holds at the end of every run. -/
theorem Run.invariant (holds : State → Prop)
    (kept : ∀ before after, holds before → step before after → holds after)
    {first last : State} (run : Run step first last) (start : holds first) : holds last := by
  induction run with
  | refl => exact start
  | tail _ last ih => exact kept _ _ ih last

theorem Run.unchanged {Part : Type*} {part : State → Part}
    (same : ∀ before after, step before after → part after = part before)
    {first last : State} (run : Run step first last) : part last = part first :=
  run.invariant (fun state => part state = part first)
    (fun _ _ held last => (same _ _ last).trans held) rfl

/-- A run with the labels of its steps. -/
inductive Trace {State Label : Type*} (step : State → Label → State → Prop) : State → List Label → State → Prop where
  | nil (state : State) : Trace step state [] state
  | cons {before middle after : State} {label : Label} {rest : List Label} (first : step before label middle)
      (more : Trace step middle rest after) : Trace step before (label :: rest) after

section Simulation
variable {Concrete Abstract Label : Type*} {step : Concrete → Label → Concrete → Prop}
  {spec : Abstract → Label → Abstract → Prop} {related : Concrete → Abstract → Prop} {fits : Abstract → Label → Prop}

/-- Wherever the other system is when it has followed a part of the labels, the next one fits. -/
def Guarded (spec : Abstract → Label → Abstract → Prop) (fits : Abstract → Label → Prop) (state : Abstract)
    (labels : List Label) : Prop :=
  ∀ earlier label later, labels = earlier ++ label :: later → ∀ middle, Trace spec state earlier middle → fits middle label

theorem Guarded.first {state : Abstract} {label : Label} {rest : List Label}
    (guarded : Guarded spec fits state (label :: rest)) : fits state label :=
  guarded [] label rest rfl state (.nil state)

theorem Guarded.rest {state middle : Abstract} {label : Label} {rest : List Label}
    (guarded : Guarded spec fits state (label :: rest)) (first : spec state label middle) :
    Guarded spec fits middle rest := by
  rintro earlier next later rfl last more
  exact guarded (label :: earlier) next later rfl last (.cons first more)

/-- If each step that fits can be followed, so can each run. -/
theorem Trace.simulated
    (follows : ∀ before state label after, related before state → fits state label → step before label after →
      ∃ next, spec state label next ∧ related after next)
    {before after : Concrete} {labels : List Label} (run : Trace step before labels after) {state : Abstract}
    (start : related before state) (guarded : Guarded spec fits state labels) :
    ∃ last, Trace spec state labels last ∧ related after last := by
  induction run generalizing state with
  | nil => exact ⟨state, .nil state, start⟩
  | cons first _ ih =>
    obtain ⟨middle, taken, middleRelated⟩ := follows _ _ _ _ start guarded.first first
    obtain ⟨last, more, lastRelated⟩ := ih middleRelated (guarded.rest taken)
    exact ⟨last, .cons taken more, lastRelated⟩

end Simulation

end Transition
