import VidbyteSdk.Workflows.Contracts

/-!
# The workflow machine

`_WorkflowRun`, `_ValidationRunner` and `_RunRecorder` of `workflows/machine.py`, function by function,
as programs over the state of one run.

The two loops of the source have no bound of their own, so the model gives them fuel; running out is an
outcome of its own. A failed stage callback is a value here (`_StageCallbackFailure` never leaves
`_execute_attempts`). Observers fail open; an exception that is no `Exception`, such as a cancellation,
ends the run wherever caller code or a sleep raises it.
-/

namespace VidbyteSdk.Workflows

open VidbyteSdk.Lib Prog

/-! ### The state of a run -/

/-- How a run may end but for a result: the machine's errors, a graph lookup that finds nothing, an
exception that is no `Exception`, or no more fuel. -/
inductive WorkflowFailure where
  | state (message : String)
  | stageExecution (message : String)
  | validation (message : String)
  | routing (message : String)
  | transitionLimit (message : String)
  | keyError (key : String)
  | baseException (typeName : String)
  | outOfFuel
  deriving DecidableEq

/-- What a commit rested on: the record of its attempt, and the route taken with its guard evidence. -/
structure Commit (S : Type) where
  stageRecord : Option Nat
  candidate : S
  sequence : Nat
  source : String
  outcome : String
  branchKey : Option String
  target : String
  guards : List (ValidationRecord S)
  deriving DecidableEq

/-- Mutable execution state of one run. The last five fields count and list what the run did; the machine
does not read them. -/
structure RunState (S : Type) where
  committedState : S
  currentStage : String
  feedback : List WorkflowFeedback := []
  transitionCount : Nat := 0
  visits : String → Nat := fun _ => 0
  stages : List (StageExecution S) := []
  transitions : List (TransitionRecord S) := []
  stageVisits : List (String × Nat) := []
  invocations : Nat := 0
  selections : Nat := 0
  guardRuns : List Nat := []
  commits : List (Commit S) := []

structure RunRecorder where
  events : List WorkflowEvent := []
  observerErrors : List String := []

/-- A run: the world of the caller's code, the recorder and the run state. The source makes the run state
once the initial state is normalized, and reads it only from then on. -/
structure WorkflowRun (S W : Type) where
  world : W
  recorder : RunRecorder
  runtime : RunState S

/-- The caller's surroundings of a run; a sleep may be cancelled. -/
structure Surroundings (W : Type) where
  observers : List (Observer W)
  sleep : StagePolicy → Nat → W → Option String × W

/-- Effective outcome and evidence from one ordered validator sequence. -/
structure ValidationDecision (S : Type) where
  passed : Bool
  result : Option ValidationResult
  records : List (ValidationRecord S)
  mustRaise : Bool := false

structure StageAttempt (S : Type) where
  stateBefore : S
  stageResult : StageResult S
  recordIndex : Option Nat
  handledError : Option WorkflowFeedback := none

structure StageDecision (S : Type) where
  source : String
  stateBefore : S
  candidateState : S
  stageResult : StageResult S
  canCommit : Bool
  trigger : String
  feedback : List WorkflowFeedback
  stageRecordIndex : Option Nat

def StageDecision.outcome {S : Type} (decision : StageDecision S) : String :=
  decision.stageResult.outcome

structure SelectedRoute (S W : Type) where
  target : String
  guards : List (Validator S W)
  branchKey : Option String := none

/-- Terminal state and ordered evidence returned by a completed workflow. -/
structure StateMachineResult (S : Type) where
  status : MachineStatus
  terminal : String
  state : S
  stages : List (StageExecution S)
  transitions : List (TransitionRecord S)
  events : List WorkflowEvent
  observerErrors : List String

abbrev WorkflowM (S W α : Type) : Type := Prog (WorkflowRun S W) WorkflowFailure α

namespace WorkflowM

variable {S W α β : Type}

/-! ### Caller code -/

/-- Calls caller code: an `Exception` becomes a value, any other exception ends the run. -/
def call (f : Callback W α β) (a : α) : WorkflowM S W (Except String β) := do
  let run ← Prog.get
  Prog.modify fun run => { run with world := (f a run.world).2 }
  match (f a run.world).1 with
  | .ok b => pure (.ok b)
  | .error (.exception typeName) => pure (.error typeName)
  | .error (.baseException typeName) => Prog.throw (.baseException typeName)

def runtime : WorkflowM S W (RunState S) := do
  let run ← Prog.get
  pure run.runtime

def modifyRuntime (change : RunState S → RunState S) : WorkflowM S W Unit :=
  Prog.modify fun run => { run with runtime := change run.runtime }

variable (d : CompiledGraph S W) (env : Surroundings W)

/-- `_notify_observers`, of one observer. -/
def notify (event : WorkflowEvent) (observer : Observer W) : WorkflowM S W Unit := do
  match ← call observer.onEvent event with
  | .ok () => pure ()
  | .error typeName =>
    let line := s!"{observer.name}: {typeName}"
    Prog.modify fun run => { run with
      recorder := { run.recorder with observerErrors := run.recorder.observerErrors ++ [line] } }

/-- Records one event before notifying observers in declaration order. -/
def emit (eventType : WorkflowEventType) (stage : Option String) : WorkflowM S W Unit := do
  let run ← Prog.get
  let event : WorkflowEvent := ⟨run.recorder.events.length + 1, eventType, stage⟩
  Prog.modify fun run => { run with
    recorder := { run.recorder with events := run.recorder.events ++ [event] } }
  forM env.observers (notify event)

/-- The value of a call to the state contract, or `WorkflowStateError`. -/
def orStateError (boundary : String) : Except String S → WorkflowM S W S
  | .ok s => pure s
  | .error _ =>
    Prog.throw (.state s!"Workflow state failed validation or cloning at '{boundary}'.")

def normalizeClone (value : S) (boundary : String) : WorkflowM S W S := do
  let normalized ← orStateError boundary (← call d.stateContract.validate value)
  let cloned ← orStateError boundary (← call d.stateContract.clone normalized)
  orStateError boundary (← call d.stateContract.validate cloned)

/-- `_clone_committed`. -/
def cloneCommitted (stage : String) : WorkflowM S W S := do
  let rt ← runtime
  normalizeClone d rt.committedState s!"stage:{stage}:input"

def snapshot (value : S) (boundary : String) : WorkflowM S W (Option S) :=
  if d.settings.recordStateSnapshots then some <$> normalizeClone d value boundary else pure none

def inspectionResult (result : StageResult S) (boundary : String) : WorkflowM S W (StageResult S) := do
  let state ← normalizeClone d result.state boundary
  pure ⟨state, result.outcome⟩

/-! ### Validators -/

/-- `_invoke`: an exception or a wrong value becomes an error result. -/
def invokeValidator (validator : Validator S W) (context : ValidationContext S) :
    WorkflowM S W ValidationResult := do
  match ← call validator.validate context with
  | .ok (some result) => pure result
  | .ok none =>
    pure ⟨.error, d.settings.validationErrorOutcome,
      s!"Validator '{validator.name}' returned another type, expected ValidationResult."⟩
  | .error typeName =>
    pure ⟨.error, d.settings.validationErrorOutcome,
      s!"Validator '{validator.name}' raised {typeName}."⟩

/-- `_evaluate_one`. -/
def evaluateOne (validator : Validator S W) (context : ValidationContext S) :
    WorkflowM S W (ValidationRecord S) := do
  let result ← invokeValidator d validator context
  emit env .validationFinished (some context.stage)
  pure ⟨context.phase, validator.name, result, context.target, context.candidateState⟩

end WorkflowM

/-- `_interpret`: the blocking decision of one gate result, if it blocks. -/
def interpret {S : Type} (settings : StateMachineSettings) (result : ValidationResult)
    (records : List (ValidationRecord S)) : Option (ValidationDecision S) :=
  match result.status with
  | .pass => none
  | .reject => some { passed := false, result := some result, records := records }
  | _ =>
    match settings.validatorErrorPolicy with
    | .failOpen => none
    | .raise => some { passed := false, result := some result, records := records, mustRaise := true }
    | .failClosed =>
      let code := if result.code = "" then settings.validationErrorOutcome else result.code
      let feedback := if result.feedback = "" then "Validator did not produce a passing decision."
        else result.feedback
      some { passed := false, result := some ⟨.reject, code, feedback⟩, records := records }

namespace WorkflowM

variable {S W : Type} (d : CompiledGraph S W) (env : Surroundings W)

/-- Evaluates gates in order and stops at the first effective blocker; `records` are those so far. -/
def evaluate (context : ValidationContext S) : List (Validator S W) → List (ValidationRecord S) →
    WorkflowM S W (ValidationDecision S)
  | [], records => pure { passed := true, result := none, records := records }
  | validator :: validators, records => do
    let record ← evaluateOne d env validator context
    match interpret d.settings record.result (records ++ [record]) with
    | some decision => pure decision
    | none => evaluate context validators (records ++ [record])

/-! ### Stage work -/

/-- `next_visit`: increments and returns the one-based visit count for a stage. -/
def nextVisit (stage : String) : WorkflowM S W Nat := do
  let rt ← runtime
  let visit := rt.visits stage + 1
  modifyRuntime fun rt => { rt with
    visits := Function.update rt.visits stage visit
    stageVisits := rt.stageVisits ++ [(stage, visit)] }
  pure visit

/-- `add_stage`: appends one attempt record and returns its index. -/
def addStage (record : StageExecution S) : WorkflowM S W Nat := do
  let rt ← runtime
  modifyRuntime fun rt => { rt with stages := rt.stages ++ [record] }
  pure rt.stages.length

/-- `_record_stage_failure`. -/
def recordStageFailure (stage : String) (visit attempt : Nat) (typeName : String) :
    WorkflowM S W Unit := do
  let _ ← addStage
    { stage := stage, visit := visit, attempt := attempt, outcome := none, errorType := some typeName
      errorMessage := some s!"Stage attempt failed with {typeName}." }
  emit env .stageFinished (some stage)

/-- `_normalize_stage_result`: the validated result, or the error that ends the run. -/
def normalizeStageResult (stage : String) : Option (StageResult S) →
    WorkflowM S W (Except (String × WorkflowFailure) (StageResult S))
  | none =>
    pure (.error ("StageExecutionError",
      .stageExecution s!"Stage '{stage}' returned another type; expected StageResult."))
  | some value => do
    match ← call d.stateContract.validate value.state with
    | .ok candidate => pure (.ok ⟨candidate, value.outcome⟩)
    | .error _ =>
      pure (.error ("WorkflowStateError", .state
        s!"Stage '{stage}' returned candidate state that violates the graph contract."))

/-- `_successful_stage_record` and its recording: commit is the only acceptance point. -/
def recordCandidate (stage : String) (visit attempt : Nat) (stateBefore : S)
    (result : StageResult S) : WorkflowM S W (StageAttempt S) := do
  let before ← snapshot d stateBefore "stage_state_before"
  let candidate ← snapshot d result.state "stage_candidate_state"
  let index ← addStage
    { stage := stage, visit := visit, attempt := attempt, outcome := some result.outcome
      stateBefore := before, candidateState := candidate, candidate := some result.state }
  emit env .stageFinished (some stage)
  pure { stateBefore := stateBefore, stageResult := result, recordIndex := some index }

def invokeStage (definition : StageDefinition S W) (stage : String) (visit attempt : Nat)
    (stageInput : S) : WorkflowM S W (Except String (Option (StageResult S))) := do
  let rt ← runtime
  let context : StageContext S :=
    { stage := stage, state := stageInput, visit := visit, attempt := attempt
      transitionCount := rt.transitionCount, feedback := rt.feedback, history := rt.stages }
  emit env .stageStarted (some stage)
  modifyRuntime fun rt => { rt with invocations := rt.invocations + 1 }
  call definition.stage context

/-- The rest of `_execute_attempt` once the callback has returned. -/
def finishAttempt (stage : String) (visit attempt : Nat) (stateBefore : S)
    (value : Option (StageResult S)) : WorkflowM S W (StageAttempt S) := do
  match ← normalizeStageResult d stage value with
  | .ok result => recordCandidate d env stage visit attempt stateBefore result
  | .error (typeName, failure) => do
    recordStageFailure env stage visit attempt typeName
    Prog.throw failure

/-- `_wait_before_retry`. -/
def waitBeforeRetry (policy : StagePolicy) (attempt : Nat) : WorkflowM S W Unit := do
  let run ← Prog.get
  Prog.modify fun run => { run with world := (env.sleep policy attempt run.world).2 }
  match (env.sleep policy attempt run.world).1 with
  | none => pure ()
  | some typeName => Prog.throw (.baseException typeName)

def exhausted (policy : StagePolicy) (stage : String) (attempt : Nat) :
    WorkflowM S W (StageAttempt S) := do
  let rt ← runtime
  match policy.errorOutcome with
  | some outcome =>
    pure
      { stateBefore := rt.committedState, stageResult := ⟨rt.committedState, outcome⟩
        recordIndex := none
        handledError := some ⟨"stage_error", stage, outcome,
          s!"Stage '{stage}' exhausted its execution policy."⟩ }
  | none =>
    Prog.throw (.stageExecution s!"Stage '{stage}' failed after {attempt} attempt(s).")

/-- The attempts of one visit from number `attempt` on, of which `remaining` are left. -/
def executeAttempts (definition : StageDefinition S W) (stage : String) (visit : Nat) :
    (remaining attempt : Nat) → WorkflowM S W (StageAttempt S)
  | 0, _ =>
    Prog.throw (.stageExecution s!"Stage '{stage}' exhausted its retry loop without a result.")
  | remaining + 1, attempt => do
    let stateBefore ← cloneCommitted d stage
    let stageInput ← normalizeClone d stateBefore s!"stage:{stage}:attempt_input"
    match ← invokeStage env definition stage visit attempt stageInput with
    | .ok value => finishAttempt d env stage visit attempt stateBefore value
    | .error typeName => do
      recordStageFailure env stage visit attempt typeName
      if attempt < definition.policy.retry.maxAttempts ∧ definition.policy.retry.retryFor typeName then do
        waitBeforeRetry env definition.policy attempt
        executeAttempts definition stage visit remaining (attempt + 1)
      else exhausted definition.policy stage attempt

/-- `_validation_feedback`. -/
def validationFeedback (kind source : String) (result : ValidationResult) : WorkflowFeedback :=
  ⟨kind, source, result.code, result.feedback⟩

/-- `_rejected_stage_decision`: discards a rejected candidate and routes its semantic code. -/
def rejectedStageDecision (stage : String) (attempt : StageAttempt S)
    (validation : ValidationDecision S) : WorkflowM S W (StageDecision S) := do
  let rt ← runtime
  let result := validation.result.getD
    ⟨.reject, d.settings.validationErrorOutcome, "Stage validation rejected the candidate."⟩
  pure
    { source := stage, stateBefore := rt.committedState, candidateState := rt.committedState
      stageResult := ⟨rt.committedState, result.code⟩, canCommit := false
      trigger := "stage_validation", feedback := [validationFeedback "stage_validation" stage result]
      stageRecordIndex := attempt.recordIndex }

/-- `_handled_stage_error`: routes an exhausted but declared stage error with unchanged state. -/
def handledStageError (stage : String) (attempt : StageAttempt S) (feedback : WorkflowFeedback) :
    WorkflowM S W (StageDecision S) := do
  let rt ← runtime
  pure
    { source := stage, stateBefore := rt.committedState, candidateState := rt.committedState
      stageResult := attempt.stageResult, canCommit := false, trigger := "stage_error"
      feedback := [feedback], stageRecordIndex := none }

/-- `_raise_validation_error`. -/
def raiseValidationError {α : Type} (stage : String) (phase : ValidationPhase) : WorkflowM S W α :=
  let boundary := phase.value
  Prog.throw (.validation
    s!"Workflow validation did not pass at the {boundary} boundary for stage '{stage}'.")

/-- What `_validate_stage` decides once the gates have run. -/
def decideStage (stage : String) (attempt : StageAttempt S) (validation : ValidationDecision S) :
    WorkflowM S W (StageDecision S) := do
  let rt ← runtime
  if validation.mustRaise then raiseValidationError stage .stage
  else if validation.passed then
    pure
      { source := stage, stateBefore := attempt.stateBefore
        candidateState := attempt.stageResult.state, stageResult := attempt.stageResult
        canCommit := true, trigger := "stage_outcome", feedback := rt.feedback
        stageRecordIndex := attempt.recordIndex }
  else rejectedStageDecision d stage attempt validation

/-- `attach_stage_validations`, where the attempt has a record. -/
def attachStageValidations (index : Option Nat) (validations : List (ValidationRecord S)) :
    WorkflowM S W Unit :=
  match index with
  | none => pure ()
  | some index => modifyRuntime fun rt => { rt with
      stages := rt.stages.modify index fun record => { record with validations := validations } }

/-- `_validate_stage`. -/
def validateStage (definition : StageDefinition S W) (stage : String) (attempt : StageAttempt S) :
    WorkflowM S W (StageDecision S) := do
  let inspection ← inspectionResult d attempt.stageResult s!"stage:{stage}:validation_candidate"
  let stateBefore ← normalizeClone d attempt.stateBefore s!"stage:{stage}:validation_before"
  let rt ← runtime
  let context : ValidationContext S :=
    { phase := .stage, stage := stage, stateBefore := stateBefore, candidateState := inspection.state
      stageResult := inspection, outcome := inspection.outcome, target := none
      feedback := rt.feedback }
  let validation ← evaluate d env context definition.validators []
  attachStageValidations attempt.recordIndex validation.records
  decideStage d stage attempt validation

/-- `_run_stage`: one stage visit, then its ordered stage validators. -/
def runStage (stage : String) : WorkflowM S W (StageDecision S) := do
  match d.stages.lookup stage with
  | none => Prog.throw (.keyError stage)
  | some definition => do
    let visit ← nextVisit stage
    let attempt ← executeAttempts d env definition stage visit definition.policy.retry.maxAttempts 1
    match attempt.handledError with
    | some feedback => handledStageError stage attempt feedback
    | none => validateStage d env definition stage attempt

/-! ### Transitions -/

/-- `_select_branch`. -/
def selectBranch (decision : StageDecision S) (router : Router S W)
    (routes : List (String × DirectRoute S W)) : WorkflowM S W (SelectedRoute S W) := do
  let source := decision.source
  let inspection ← inspectionResult d decision.stageResult s!"stage:{source}:routing_candidate"
  match ← call router.route ⟨source, inspection.state, inspection, decision.feedback⟩ with
  | .error _ => Prog.throw (.routing s!"Router '{router.name}' failed for stage '{source}'.")
  | .ok rawKey =>
    let key := (rawKey.map strip).getD ""
    let shown := if key = "" then "<empty>" else key
    match routes.lookup key with
    | none => Prog.throw (.routing s!"Router '{router.name}' returned undeclared branch key '{shown}'.")
    | some destination => pure ⟨destination.target, destination.guards, some key⟩

/-- `_select_route`: resolves a direct route or bounded branch key from the compiled map. -/
def selectRoute (decision : StageDecision S) : WorkflowM S W (SelectedRoute S W) := do
  modifyRuntime fun rt => { rt with selections := rt.selections + 1 }
  match d.routes.lookup (decision.source, decision.outcome) with
  | none =>
    let source := decision.source
    let outcome := decision.outcome
    Prog.throw (.routing s!"No route is declared for stage '{source}' outcome '{outcome}'.")
  | some (.direct route) => pure ⟨route.target, route.guards, none⟩
  | some (.branch router routes) => selectBranch d decision router routes

/-- `_consume_transition`: counts every target selection before its guards. -/
def consumeTransition : WorkflowM S W Nat := do
  let rt ← runtime
  modifyRuntime fun rt => { rt with transitionCount := rt.transitionCount + 1 }
  pure (rt.transitionCount + 1)

/-- `_run_guards`: the target's guards against the selected candidate. -/
def runGuards (decision : StageDecision S) (selected : SelectedRoute S W) (sequence : Nat) :
    WorkflowM S W (ValidationDecision S) := do
  let source := decision.source
  modifyRuntime fun rt => { rt with guardRuns := rt.guardRuns ++ [sequence] }
  let inspection ← inspectionResult d decision.stageResult s!"stage:{source}:guard_candidate"
  let rt ← runtime
  let stateBefore ← normalizeClone d rt.committedState s!"stage:{source}:guard_before"
  evaluate d env
    { phase := .transition, stage := source, stateBefore := stateBefore
      candidateState := inspection.state, stageResult := inspection, outcome := decision.outcome
      target := some selected.target, feedback := decision.feedback } selected.guards []

/-- `_append_transition_record`. -/
def appendTransitionRecord (sequence : Nat) (decision : StageDecision S)
    (selected : SelectedRoute S W) (validation : ValidationDecision S) (accepted : Bool) :
    WorkflowM S W Unit :=
  modifyRuntime fun rt => { rt with
    transitions := rt.transitions ++
      [{ sequence := sequence, source := decision.source, target := selected.target
         outcome := decision.outcome, accepted := accepted, trigger := decision.trigger
         validations := validation.records, stageRecord := decision.stageRecordIndex }] }

/-- `accept_stage`, where the decision has a record. -/
def acceptStage (index : Option Nat) (stages : List (StageExecution S)) : List (StageExecution S) :=
  match index with
  | none => stages
  | some index => stages.modify index fun record => { record with accepted := true }

def commitState (decision : StageDecision S) (selected : SelectedRoute S W) (sequence : Nat)
    (validation : ValidationDecision S) (state : S) : WorkflowM S W Unit :=
  modifyRuntime fun rt => { rt with
    committedState := state
    stages := acceptStage decision.stageRecordIndex rt.stages
    commits := rt.commits ++
      [{ stageRecord := decision.stageRecordIndex, candidate := decision.candidateState, sequence := sequence
         source := decision.source, outcome := decision.outcome, branchKey := selected.branchKey
         target := selected.target, guards := validation.records }] }

/-- Commits an accepted candidate or carries unchanged state over a recovery edge. -/
def settle (decision : StageDecision S) (selected : SelectedRoute S W) (sequence : Nat)
    (validation : ValidationDecision S) : WorkflowM S W Unit := do
  if decision.canCommit then do
    let state ← normalizeClone d decision.candidateState "state_commit"
    commitState decision selected sequence validation state
    emit env .stateCommitted (some decision.source)
    modifyRuntime fun rt => { rt with feedback := [] }
  else modifyRuntime fun rt => { rt with feedback := decision.feedback }

def enterTarget (target : String) : WorkflowM S W (Option String) := do
  if (d.terminals.lookup target).isSome then pure (some target)
  else do
    modifyRuntime fun rt => { rt with currentStage := target }
    pure none

/-- `_accept_transition`. -/
def acceptTransition (decision : StageDecision S) (selected : SelectedRoute S W) (sequence : Nat)
    (validation : ValidationDecision S) : WorkflowM S W (Option String) := do
  settle d env decision selected sequence validation
  enterTarget d selected.target

/-- `_redirect_guard_rejection`: discards the candidate and redirects the guard's rejection code. -/
def redirectGuardRejection (decision : StageDecision S) (validation : ValidationDecision S) :
    WorkflowM S W (StageDecision S) := do
  let source := decision.source
  let result := validation.result.getD
    ⟨.reject, d.settings.validationErrorOutcome, "Transition guard rejected the candidate."⟩
  emit env .transitionRejected (some source)
  let rt ← runtime
  let base := if decision.canCommit then [] else decision.feedback
  pure
    { source := source, stateBefore := rt.committedState, candidateState := rt.committedState
      stageResult := ⟨rt.committedState, result.code⟩, canCommit := false
      trigger := "transition_guard"
      feedback := base ++ [validationFeedback "transition_guard" source result]
      stageRecordIndex := decision.stageRecordIndex }

/-- `_raise_transition_limit`, with the record of the selection. -/
def raiseTransitionLimit {α : Type} (sequence : Nat) (decision : StageDecision S)
    (selected : SelectedRoute S W) : WorkflowM S W α := do
  appendTransitionRecord sequence decision selected
    { passed := false, result := none, records := [] } false
  let limit := d.settings.maxTransitions
  Prog.throw (.transitionLimit s!"Workflow exceeded max_transitions={limit}.")

/-- One pass of `_advance` but for its loop: the terminal or next stage, or the redirected decision. -/
def tryTransition (decision : StageDecision S) (selected : SelectedRoute S W) (sequence : Nat) :
    WorkflowM S W (Option String ⊕ StageDecision S) := do
  let guards ← runGuards d env decision selected sequence
  if guards.mustRaise then do
    appendTransitionRecord sequence decision selected guards false
    raiseValidationError decision.source .transition
  else if guards.passed then do
    let terminal ← acceptTransition d env decision selected sequence guards
    appendTransitionRecord sequence decision selected guards true
    pure (.inl terminal)
  else do
    appendTransitionRecord sequence decision selected guards false
    Sum.inr <$> redirectGuardRejection d env decision guards

/-- `_advance`: resolves transitions and guard redirects until one target is accepted. -/
def advance : (fuel : Nat) → StageDecision S → WorkflowM S W (Option String)
  | 0, _ => Prog.throw .outOfFuel
  | fuel + 1, decision => do
    let selected ← selectRoute d decision
    let sequence ← consumeTransition
    emit env .transitionSelected (some decision.source)
    if sequence > d.settings.maxTransitions then raiseTransitionLimit d sequence decision selected
    else do
      match ← tryTransition d env decision selected sequence with
      | .inl terminal => pure terminal
      | .inr redirected => advance fuel redirected

/-! ### The run -/

/-- `_finish`. -/
def finish (terminal : String) : WorkflowM S W (StateMachineResult S) := do
  match d.terminals.lookup terminal with
  | none => Prog.throw (.keyError terminal)
  | some status => do
    emit env .runFinished (some terminal)
    let run ← Prog.get
    pure
      { status := status, terminal := terminal, state := run.runtime.committedState
        stages := run.runtime.stages, transitions := run.runtime.transitions
        events := run.recorder.events, observerErrors := run.recorder.observerErrors }

/-- `_execute_stages`: stage work and transition resolution until a terminal is entered. -/
def executeStages : (fuel : Nat) → WorkflowM S W (StateMachineResult S)
  | 0 => Prog.throw .outOfFuel
  | fuel + 1 => do
    let rt ← runtime
    let decision ← runStage d env rt.currentStage
    match ← advance d env (fuel + 1) decision with
    | some terminal => finish d env terminal
    | none => executeStages fuel

/-- `_emit_failure`: best-effort failure evidence. -/
def emitFailure : WorkflowM S W Unit := do
  let rt ← runtime
  Prog.tryCatch (emit env .runFailed (some rt.currentStage)) fun _ => pure ()

/-- `execute`: from initial-state isolation to a declared terminal result. -/
def execute (fuel : Nat) (initialState : S) : WorkflowM S W (StateMachineResult S) :=
  Prog.tryCatch
    (do
      emit env .runStarted (some d.entry)
      let committed ← normalizeClone d initialState "initial_state"
      modifyRuntime fun rt => { rt with committedState := committed }
      executeStages d env fuel)
    fun failure => do
      emitFailure env
      Prog.throw failure

end WorkflowM

def WorkflowRun.start {S W : Type} (d : CompiledGraph S W) (initialState : S) (world : W) :
    WorkflowRun S W where
  world := world
  recorder := {}
  runtime := { committedState := initialState, currentStage := d.entry }

end VidbyteSdk.Workflows
