import Mathlib.Logic.Basic

/-!
# Runs of a step function

A machine takes a list of steps, one after the other. A property of a run is a property of
each step at the state in which it is taken, or of every state on the way. Both are proved
from an invariant that one step keeps.
-/

namespace HexaOS.StepRuns

variable {κ σ : Type}

/-- The state after some steps. -/
def runSteps (next : κ → σ → σ) : List κ → σ → σ
  | [], state => state
  | step :: steps, state => runSteps next steps (next step state)

/-- A property of every step of a run, at the state in which the step is taken. -/
def EveryStep (next : κ → σ → σ) (property : κ → σ → Prop) : List κ → σ → Prop
  | [], _ => True
  | step :: steps, state =>
    property step state ∧ EveryStep next property steps (next step state)

/-- A property of every state of a run, the first one included. -/
def EveryState (next : κ → σ → σ) (property : σ → Prop) : List κ → σ → Prop
  | [], state => property state
  | step :: steps, state => property state ∧ EveryState next property steps (next step state)

variable {next : κ → σ → σ} {property property' : κ → σ → Prop} {invariant : σ → Prop}

/-- A run of no steps. -/
@[simp] theorem runSteps_nil (next : κ → σ → σ) (state : σ) : runSteps next [] state = state := rfl

theorem everyStep_nil (next : κ → σ → σ) (property : κ → σ → Prop) (state : σ) :
    EveryStep next property [] state := trivial

/-- A run of one step. -/
theorem everyStep_singleton {step : κ} {state : σ} :
    EveryStep next property [step] state ↔ property step state := and_iff_left trivial

/-- A property that the steps have in any state. -/
theorem everyStep_of_forall {steps : List κ} {holds : κ → Prop} (h : ∀ step ∈ steps, holds step)
    (state : σ) : EveryStep next (fun step _ => holds step) steps state := by
  induction steps generalizing state with
  | nil => trivial
  | cons step steps ih =>
    exact ⟨h step List.mem_cons_self,
      ih (fun other hother => h other (List.mem_cons_of_mem _ hother)) (next step state)⟩

/-- A property that does not look at the state is a property of the steps. -/
theorem everyStep_iff_forall {steps : List κ} {holds : κ → Prop} (state : σ) :
    EveryStep next (fun step _ => holds step) steps state ↔ ∀ step ∈ steps, holds step := by
  induction steps generalizing state with
  | nil => exact iff_of_true trivial fun _ hstep => absurd hstep List.not_mem_nil
  | cons step steps ih =>
    rw [List.forall_mem_cons, ← ih (next step state)]
    exact Iff.rfl

/-- A property of the steps of two lists. -/
theorem everyStep_append (steps steps' : List κ) (state : σ) :
    EveryStep next property (steps ++ steps') state ↔ EveryStep next property steps state ∧
      EveryStep next property steps' (runSteps next steps state) := by
  induction steps generalizing state with
  | nil => exact (and_iff_right trivial).symm
  | cons step steps ih =>
    show property step state ∧ EveryStep next property (steps ++ steps') _ ↔ _
    rw [ih, ← and_assoc]
    exact Iff.rfl

/-- An invariant holds at the end of a run. -/
theorem invariant_runSteps (hstep : ∀ step state, invariant state → invariant (next step state))
    (steps : List κ) {state : σ} (h : invariant state) :
    invariant (runSteps next steps state) := by
  induction steps generalizing state with
  | nil => exact h
  | cons step steps ih => exact ih (hstep step state h)

/-- An invariant holds in every state of a run. -/
theorem everyState_of_invariant
    (hstep : ∀ step state, invariant state → invariant (next step state)) (steps : List κ)
    {state : σ} (h : invariant state) : EveryState next invariant steps state := by
  induction steps generalizing state with
  | nil => exact h
  | cons step steps ih => exact ⟨h, ih (hstep step state h)⟩

/-- What follows from an invariant holds of every step of a run. -/
theorem everyStep_of_invariant
    (hstep : ∀ step state, invariant state → invariant (next step state))
    (himp : ∀ step state, invariant state → property step state) (steps : List κ) {state : σ}
    (h : invariant state) : EveryStep next property steps state := by
  induction steps generalizing state with
  | nil => trivial
  | cons step steps ih => exact ⟨himp step state h, ih (hstep step state h)⟩

/-- Steps that keep an invariant where a property of the step holds keep it over a run. -/
theorem EveryStep.everyState {steps : List κ} {state : σ}
    (hsteps : EveryStep next property steps state)
    (hstep : ∀ step state, invariant state → property step state → invariant (next step state))
    (h : invariant state) : EveryState next invariant steps state := by
  induction steps generalizing state with
  | nil => exact h
  | cons step steps ih => exact ⟨h, ih hsteps.2 (hstep step state h hsteps.1)⟩

/-- The last state of a run. -/
theorem EveryState.runSteps {steps : List κ} {state : σ}
    (h : EveryState next invariant steps state) : invariant (runSteps next steps state) := by
  induction steps generalizing state with
  | nil => exact h
  | cons step steps ih => exact ih h.2

/-- A property of every state, from one that implies it. -/
theorem EveryState.mono {weaker : σ → Prop} (himp : ∀ state, invariant state → weaker state)
    {steps : List κ} {state : σ} (h : EveryState next invariant steps state) :
    EveryState next weaker steps state := by
  induction steps generalizing state with
  | nil => exact himp state h
  | cons step steps ih => exact ⟨himp state h.1, ih h.2⟩

/-- Under an invariant that every step keeps, two properties of a step that are the same
where the invariant holds are the same over whole runs. -/
theorem everyStep_congr (hstep : ∀ step state, invariant state → invariant (next step state))
    (hsame : ∀ step state, invariant state → (property step state ↔ property' step state))
    {steps : List κ} {state : σ} (h : invariant state) :
    EveryStep next property steps state ↔ EveryStep next property' steps state := by
  induction steps generalizing state with
  | nil => exact Iff.rfl
  | cons step steps ih =>
    exact and_congr (hsame step state h) (ih (hstep step state h))

/-- Steps that keep an invariant where a property of the step holds have, over a run, a
property that follows from both. -/
theorem EveryStep.imp_of_invariant {steps : List κ} {state : σ}
    (hsteps : EveryStep next property steps state)
    (hstep : ∀ step state, invariant state → property step state → invariant (next step state))
    (himp : ∀ step state, invariant state → property step state → property' step state)
    (h : invariant state) : EveryStep next property' steps state := by
  induction steps generalizing state with
  | nil => trivial
  | cons step steps ih =>
    exact ⟨himp step state h hsteps.1, ih hsteps.2 (hstep step state h hsteps.1)⟩

/-- The same where all steps are allowed, and an allowed step keeps the invariant where it
has the property. -/
theorem EveryStep.congr_of_invariant {allowed : κ → σ → Prop} {steps : List κ} {state : σ}
    (hsteps : EveryStep next allowed steps state)
    (hstep : ∀ step state, invariant state → allowed step state → property step state →
      invariant (next step state))
    (hsame : ∀ step state, invariant state → allowed step state →
      (property step state ↔ property' step state))
    (h : invariant state) :
    EveryStep next property steps state ↔ EveryStep next property' steps state := by
  induction steps generalizing state with
  | nil => exact Iff.rfl
  | cons step steps ih =>
    have hfirst := hsame step state h hsteps.1
    have hrest := fun hproperty => ih hsteps.2 (hstep step state h hsteps.1 hproperty)
    exact ⟨fun hall => ⟨hfirst.mp hall.1, (hrest hall.1).mp hall.2⟩,
      fun hall => ⟨hfirst.mpr hall.1, (hrest (hfirst.mpr hall.1)).mpr hall.2⟩⟩

end HexaOS.StepRuns
