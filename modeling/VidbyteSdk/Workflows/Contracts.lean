import VidbyteSdk.Lib.Prog
import VidbyteSdk.Lib.Text

/-!
# Workflow contracts

The records of `workflows/contracts.py` and the compiled graph of `workflows/graph.py`, over states `S`
and a world `W`. Stages, validators, routers, observers and the state contract are the caller's code: a
`Callback` is any function of its argument and of the world, which it may change. The world holds
whatever that code can reach, the ledger included, so timings, metadata and free-form details, which the
machine only passes on, are left out.
-/

namespace VidbyteSdk.Workflows

open VidbyteSdk.Lib

/-! ### Values -/

inductive ValidationPhase where
  | stage | transition
  deriving DecidableEq

def ValidationPhase.value : ValidationPhase → String
  | stage => "stage"
  | transition => "transition"

inductive ValidationStatus where
  | pass | reject | abstain | error
  deriving DecidableEq

inductive ValidatorErrorPolicy where
  | failClosed | failOpen | raise
  deriving DecidableEq

inductive MachineStatus where
  | succeeded | failed
  deriving DecidableEq

inductive WorkflowEventType where
  | runStarted | stageStarted | stageFinished | validationFinished | transitionSelected
  | transitionRejected | stateCommitted | runFinished | runFailed
  deriving DecidableEq

/-- One structured reason delivered to a recovery stage. -/
structure WorkflowFeedback where
  kind : String
  source : String
  code : String
  message : String
  deriving DecidableEq

structure StageResult (S : Type) where
  state : S
  outcome : String
  deriving DecidableEq

/-- Structured gate decision returned by a validator. -/
structure ValidationResult where
  status : ValidationStatus
  code : String
  feedback : String := ""
  deriving DecidableEq

/-- Evidence for one validator call. `candidate` is the state the validator was given; the source keeps
it in the context of the call. -/
structure ValidationRecord (S : Type) where
  phase : ValidationPhase
  validator : String
  result : ValidationResult
  target : Option String
  candidate : S
  deriving DecidableEq

/-- One stage attempt. `stateBefore` and `candidateState` are the snapshots of the source, taken on
demand; `candidate` is the candidate itself, which the source keeps in the attempt. -/
structure StageExecution (S : Type) where
  stage : String
  visit : Nat
  attempt : Nat
  outcome : Option String
  accepted : Bool := false
  validations : List (ValidationRecord S) := []
  errorType : Option String := none
  errorMessage : Option String := none
  stateBefore : Option S := none
  candidateState : Option S := none
  candidate : Option S := none
  deriving DecidableEq

/-- One selected transition and its guard evidence. `stageRecord` is the record index of the decision,
which the source keeps in the decision. -/
structure TransitionRecord (S : Type) where
  sequence : Nat
  source : String
  target : String
  outcome : String
  accepted : Bool
  trigger : String
  validations : List (ValidationRecord S)
  stageRecord : Option Nat
  deriving DecidableEq

structure WorkflowEvent where
  sequence : Nat
  eventType : WorkflowEventType
  stage : Option String
  deriving DecidableEq

/-! ### Contexts and components -/

structure StageContext (S : Type) where
  stage : String
  state : S
  visit : Nat
  attempt : Nat
  transitionCount : Nat
  feedback : List WorkflowFeedback
  history : List (StageExecution S)

structure ValidationContext (S : Type) where
  phase : ValidationPhase
  stage : String
  stateBefore : S
  candidateState : S
  stageResult : StageResult S
  outcome : String
  target : Option String
  feedback : List WorkflowFeedback

structure RoutingContext (S : Type) where
  stage : String
  candidateState : S
  stageResult : StageResult S
  feedback : List WorkflowFeedback

/-- A stage callback; `none` is a value that is no `StageResult`. -/
abbrev Stage (S W : Type) : Type := Callback W (StageContext S) (Option (StageResult S))

/-- A validator or guard; `none` is a value that is no `ValidationResult`. -/
structure Validator (S W : Type) where
  name : String
  validate : Callback W (ValidationContext S) (Option ValidationResult)

/-- A branch callback; `none` is a value that is no text. -/
structure Router (S W : Type) where
  name : String
  route : Callback W (RoutingContext S) (Option String)

structure Observer (W : Type) where
  name : String
  onEvent : Callback W WorkflowEvent Unit

/-- Normalizes and clones the state; either may raise. -/
structure StateContract (S W : Type) where
  validate : Callback W S S
  clone : Callback W S S

/-- `validate` and `clone` return an equal value whenever they return. -/
structure StateContract.Lawful {S W : Type} (contract : StateContract S W) : Prop where
  validate_eq : ∀ s w s', (contract.validate s w).1 = .ok s' → s' = s
  clone_eq : ∀ s w s', (contract.clone s w).1 = .ok s' → s' = s

/-! ### The compiled graph -/

/-- Retry settings of a stage; `retryFor` is the test of the exception allowlist. -/
structure RetryPolicy where
  maxAttempts : Nat := 1
  maxAttempts_pos : 0 < maxAttempts := by first | exact Nat.one_pos | decide
  retryFor : String → Bool := fun _ => true

structure StagePolicy where
  retry : RetryPolicy := {}
  errorOutcome : Option String := none

structure StateMachineSettings where
  maxTransitions : Nat := 100
  validatorErrorPolicy : ValidatorErrorPolicy := .failClosed
  validationErrorOutcome : String := "validation_error"
  recordStateSnapshots : Bool := false

structure StageDefinition (S W : Type) where
  stage : Stage S W
  validators : List (Validator S W)
  policy : StagePolicy

structure DirectRoute (S W : Type) where
  target : String
  guards : List (Validator S W)

inductive Route (S W : Type) where
  | direct (route : DirectRoute S W)
  | branch (router : Router S W) (routes : List (String × DirectRoute S W))

/-- Immutable definition snapshot consumed by the machine. -/
structure CompiledGraph (S W : Type) where
  stateContract : StateContract S W
  stages : List (String × StageDefinition S W)
  entry : String
  terminals : List (String × MachineStatus)
  routes : List ((String × String) × Route S W)
  settings : StateMachineSettings

namespace CompiledGraph

variable {S W : Type} (d : CompiledGraph S W)

def maxAttempts : Nat := (d.stages.map fun entry => entry.2.policy.retry.maxAttempts).foldr max 0

theorem maxAttempts_le_of_lookup {name : String} {definition : StageDefinition S W}
    (h : d.stages.lookup name = some definition) :
    definition.policy.retry.maxAttempts ≤ d.maxAttempts := by
  have hmem : (name, definition) ∈ d.stages := by
    obtain ⟨l₁, l₂, heq, -⟩ := List.lookup_eq_some_iff.mp h
    rw [heq]
    simp
  unfold maxAttempts
  generalize d.stages = stages at hmem
  induction stages with
  | nil => cases hmem
  | cons entry stages ih =>
    rw [List.map_cons, List.foldr_cons]
    rcases List.mem_cons.mp hmem with rfl | hmem
    · exact Nat.le_max_left _ _
    · exact (ih hmem).trans (Nat.le_max_right _ _)

def routeFor (source outcome : String) (branchKey : Option String) : Option (DirectRoute S W) :=
  match d.routes.lookup (source, outcome), branchKey with
  | some (.direct route), none => some route
  | some (.branch _ routes), some key => routes.lookup key
  | _, _ => none

end CompiledGraph

end VidbyteSdk.Workflows
