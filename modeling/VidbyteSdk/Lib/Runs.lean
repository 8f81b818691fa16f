import Mathlib.Data.List.Basic

/-!
# Runs of a step function

A machine is a step function that refuses the events that cannot happen. What its steps preserve under a
condition holds after every run that meets the condition step by step.

The second part is about the steps that a task gives to a worker thread and waits for: the task sees the
result when it runs again, and a cancelled task no longer waits for a step that goes on.
-/

namespace VidbyteSdk.Lib

section

variable {S E : Type*} (step : S → E → Option S)

/-- The state after some events, if each of them can happen. -/
def runFrom : S → List E → Option S
  | s, [] => some s
  | s, e :: es => (step s e).bind fun s' => runFrom s' es

/-- Every step of the run satisfies `C`. -/
def Throughout (C : S → E → Prop) : S → List E → Prop
  | _, [] => True
  | s, e :: es => C s e ∧ ∀ s', step s e = some s' → Throughout C s' es

variable {step} {C C' : S → E → Prop} {I : S → Prop} {s s' : S} {es : List E}

def decideThroughout [∀ s e, Decidable (C s e)] : (s : S) → (es : List E) → Decidable (Throughout step C s es)
  | _, [] => .isTrue trivial
  | s, e :: es =>
    match hstep : step s e with
    | none => decidable_of_iff (C s e) (by simp [Throughout, hstep])
    | some next =>
      have := decideThroughout next es
      decidable_of_iff (C s e ∧ Throughout step C next es) (by simp [Throughout, hstep])

instance [∀ s e, Decidable (C s e)] : Decidable (Throughout step C s es) := decideThroughout s es

theorem Throughout.and (h : Throughout step C s es) (h' : Throughout step C' s es) :
    Throughout step (fun s e => C s e ∧ C' s e) s es := by
  induction es generalizing s with
  | nil => trivial
  | cons e es ih => exact ⟨⟨h.1, h'.1⟩, fun next hnext => ih (h.2 next hnext) (h'.2 next hnext)⟩

theorem runFrom_invariant (hstep : ∀ s e s', I s → C s e → step s e = some s' → I s') (hstart : I s)
    (hsteps : Throughout step C s es) (hrun : runFrom step s es = some s') : I s' := by
  induction es generalizing s with
  | nil =>
    cases hrun
    exact hstart
  | cons e es ih =>
    obtain ⟨next, hnext, hrest⟩ := Option.bind_eq_some_iff.mp hrun
    exact ih (hstep s e next hstart hsteps.1 hnext) (hsteps.2 next hnext) hrest

end

/-- How far a worker thread has come with a step: it waits for a thread, runs, or is over and its result
waits for the task. -/
inductive Progress (R : Type*) where
  | queued
  | running
  | finished (result : R)
  deriving DecidableEq

/-- The steps that go on when the task that waits for one is cancelled. -/
def strayOf {R W : Type*} (work : W) : Progress R → List W
  | .running => [work]
  | .queued | .finished _ => []

end VidbyteSdk.Lib
