import VidbyteSdk.Workflows.Effects

/-!
# The moves of a workflow run

An abstract machine for a run: a phase, the run state and the number of announced commits, and one
`Move` for each change the machine makes. `execute_reaches` shows that every state a run passes through
is reached by moves, whatever the caller's code does. The claims about runs are then invariants of moves.
-/

namespace VidbyteSdk.Workflows

open VidbyteSdk.Lib Prog

variable {S W : Type}

/-! ### Phases and moves -/

/-- Where a run stands between two changes of its state. -/
inductive Phase (S W : Type) where
  | idle
  | attempting (definition : StageDefinition S W) (visit attempt : Nat)
  | invoked (definition : StageDefinition S W) (visit attempt : Nat)
  | failed (definition : StageDefinition S W) (visit attempt : Nat)
  | attempted (definition : StageDefinition S W) (attempt : StageAttempt S)
  | gated (attempt : StageAttempt S) (validation : ValidationDecision S)
  | deciding (decision : StageDecision S)
  | chosen (decision : StageDecision S)
  | counted (decision : StageDecision S) (selected : SelectedRoute S W)
  | guarding (decision : StageDecision S) (selected : SelectedRoute S W)
  | redirecting (decision : StageDecision S)
  | settling (decision : StageDecision S) (selected : SelectedRoute S W)
      (validation : ValidationDecision S)
  | settled (decision : StageDecision S) (selected : SelectedRoute S W)
      (validation : ValidationDecision S)
  | arrived (decision : StageDecision S) (selected : SelectedRoute S W)
      (validation : ValidationDecision S) (terminal : Option String)
  | finished (terminal : String)
  | stopped

structure Moment (S W : Type) where
  phase : Phase S W
  runtime : RunState S
  announced : Nat

structure IsFailure (stage : String) (visit attempt : Nat) (record : StageExecution S) : Prop where
  stage_eq : record.stage = stage
  visit_eq : record.visit = visit
  attempt_eq : record.attempt = attempt
  errorType_isSome : record.errorType.isSome
  accepted_eq : record.accepted = false

structure IsCandidate (stage : String) (visit attempt : Nat) (state : S)
    (record : StageExecution S) : Prop where
  stage_eq : record.stage = stage
  visit_eq : record.visit = visit
  attempt_eq : record.attempt = attempt
  errorType_eq : record.errorType = none
  accepted_eq : record.accepted = false
  candidate_eq : record.candidate = some state

/-- A gate sequence that passed has a passing record for each of its validators. -/
def GatesHold (d : CompiledGraph S W) (validators : List (Validator S W)) (candidate : S)
    (validation : ValidationDecision S) : Prop :=
  validation.passed = true → d.stateContract.Lawful →
    List.Forall₂ (Passed d.settings candidate) validators validation.records

def transitionOf (rt : RunState S) (decision : StageDecision S) (selected : SelectedRoute S W)
    (validations : List (ValidationRecord S)) (accepted : Bool) : TransitionRecord S where
  sequence := rt.transitionCount
  source := decision.source
  target := selected.target
  outcome := decision.outcome
  accepted := accepted
  trigger := decision.trigger
  validations := validations
  stageRecord := decision.stageRecordIndex

def commitOf (rt : RunState S) (decision : StageDecision S) (selected : SelectedRoute S W)
    (guards : List (ValidationRecord S)) : Commit S where
  stageRecord := decision.stageRecordIndex
  candidate := decision.candidateState
  sequence := rt.transitionCount
  source := decision.source
  outcome := decision.outcome
  branchKey := selected.branchKey
  target := selected.target
  guards := guards

inductive Move (d : CompiledGraph S W) : Moment S W → Moment S W → Prop where
  | visit {rt k definition} (hstage : d.stages.lookup rt.currentStage = some definition) :
      Move d ⟨.idle, rt, k⟩ ⟨.attempting definition (rt.visits rt.currentStage + 1) 1,
        { rt with
          visits := Function.update rt.visits rt.currentStage (rt.visits rt.currentStage + 1)
          stageVisits := rt.stageVisits ++ [(rt.currentStage, rt.visits rt.currentStage + 1)] }, k⟩
  | invoke {rt k definition visit attempt} :
      Move d ⟨.attempting definition visit attempt, rt, k⟩
        ⟨.invoked definition visit attempt, { rt with invocations := rt.invocations + 1 }, k⟩
  | fail {rt k definition visit attempt record}
      (hrecord : IsFailure rt.currentStage visit attempt record) :
      Move d ⟨.invoked definition visit attempt, rt, k⟩
        ⟨.failed definition visit attempt, { rt with stages := rt.stages ++ [record] }, k⟩
  | retry {rt k definition visit attempt} (hleft : attempt < definition.policy.retry.maxAttempts) :
      Move d ⟨.failed definition visit attempt, rt, k⟩
        ⟨.attempting definition visit (attempt + 1), rt, k⟩
  | giveUp {rt k definition visit attempt decision} (hsource : decision.source = rt.currentStage)
      (hcommit : decision.canCommit = false) (htrigger : decision.trigger = "stage_error")
      (hindex : decision.stageRecordIndex = none) :
      Move d ⟨.failed definition visit attempt, rt, k⟩ ⟨.deciding decision, rt, k⟩
  | candidate {rt k definition visit attempt record} {result : StageAttempt S}
      (hrecord : IsCandidate rt.currentStage visit attempt result.stageResult.state record)
      (hindex : result.recordIndex = some rt.stages.length) :
      Move d ⟨.invoked definition visit attempt, rt, k⟩
        ⟨.attempted definition result, { rt with stages := rt.stages ++ [record] }, k⟩
  | gate {rt k definition attempt index validation} (hindex : attempt.recordIndex = some index)
      (hgates : GatesHold d definition.validators attempt.stageResult.state validation) :
      Move d ⟨.attempted definition attempt, rt, k⟩
        ⟨.gated attempt validation, { rt with
          stages := rt.stages.modify index fun record =>
            { record with validations := validation.records } }, k⟩
  | accept {rt k attempt validation decision} (hpassed : validation.passed = true)
      (hsource : decision.source = rt.currentStage) (hcommit : decision.canCommit = true)
      (htrigger : decision.trigger = "stage_outcome")
      (hcandidate : decision.candidateState = attempt.stageResult.state)
      (hresult : decision.stageResult = attempt.stageResult)
      (hindex : decision.stageRecordIndex = attempt.recordIndex) :
      Move d ⟨.gated attempt validation, rt, k⟩ ⟨.deciding decision, rt, k⟩
  | reject {rt k attempt validation decision} (hsource : decision.source = rt.currentStage)
      (hcommit : decision.canCommit = false) (htrigger : decision.trigger = "stage_validation")
      (hindex : decision.stageRecordIndex = attempt.recordIndex) :
      Move d ⟨.gated attempt validation, rt, k⟩ ⟨.deciding decision, rt, k⟩
  | select {rt k decision} :
      Move d ⟨.deciding decision, rt, k⟩
        ⟨.chosen decision, { rt with selections := rt.selections + 1 }, k⟩
  | consume {rt k decision selected}
      (hroute : d.routeFor decision.source decision.outcome selected.branchKey
        = some ⟨selected.target, selected.guards⟩) :
      Move d ⟨.chosen decision, rt, k⟩
        ⟨.counted decision selected, { rt with transitionCount := rt.transitionCount + 1 }, k⟩
  | limit {rt k decision selected} (hlimit : d.settings.maxTransitions < rt.transitionCount) :
      Move d ⟨.counted decision selected, rt, k⟩ ⟨.stopped, { rt with
        transitions := rt.transitions ++ [transitionOf rt decision selected [] false] }, k⟩
  | guard {rt k decision selected} (hlimit : rt.transitionCount ≤ d.settings.maxTransitions) :
      Move d ⟨.counted decision selected, rt, k⟩
        ⟨.guarding decision selected, { rt with guardRuns := rt.guardRuns ++ [rt.transitionCount] }, k⟩
  | refuse {rt k decision selected validations} :
      Move d ⟨.guarding decision selected, rt, k⟩ ⟨.redirecting decision, { rt with
        transitions := rt.transitions ++ [transitionOf rt decision selected validations false] }, k⟩
  | redirect {rt k decision decision'} (hsource : decision'.source = decision.source)
      (hcommit : decision'.canCommit = false) (htrigger : decision'.trigger = "transition_guard")
      (hindex : decision'.stageRecordIndex = decision.stageRecordIndex) :
      Move d ⟨.redirecting decision, rt, k⟩ ⟨.deciding decision', rt, k⟩
  | commit {rt k decision selected validation state} (hcommit : decision.canCommit = true)
      (hpassed : validation.passed = true)
      (hguards : GatesHold d selected.guards decision.stageResult.state validation)
      (hstate : d.stateContract.Lawful → state = decision.candidateState) :
      Move d ⟨.guarding decision selected, rt, k⟩ ⟨.settling decision selected validation, { rt with
        committedState := state
        stages := WorkflowM.acceptStage decision.stageRecordIndex rt.stages
        commits := rt.commits ++ [commitOf rt decision selected validation.records] }, k⟩
  | announce {rt k decision selected validation} :
      Move d ⟨.settling decision selected validation, rt, k⟩
        ⟨.settled decision selected validation, rt, k + 1⟩
  | clear {rt k decision selected validation feedback} :
      Move d ⟨.settled decision selected validation, rt, k⟩
        ⟨.settled decision selected validation, { rt with feedback := feedback }, k⟩
  | carry {rt k decision selected validation feedback} (hcommit : decision.canCommit = false) :
      Move d ⟨.guarding decision selected, rt, k⟩
        ⟨.settled decision selected validation, { rt with feedback := feedback }, k⟩
  | enter {rt k decision selected validation} (htarget : d.terminals.lookup selected.target = none) :
      Move d ⟨.settled decision selected validation, rt, k⟩
        ⟨.arrived decision selected validation none, { rt with currentStage := selected.target }, k⟩
  | arrive {rt k decision selected validation} (htarget : (d.terminals.lookup selected.target).isSome) :
      Move d ⟨.settled decision selected validation, rt, k⟩
        ⟨.arrived decision selected validation (some selected.target), rt, k⟩
  | next {rt k decision selected validation} :
      Move d ⟨.arrived decision selected validation none, rt, k⟩ ⟨.idle, { rt with transitions :=
        rt.transitions ++ [transitionOf rt decision selected validation.records true] }, k⟩
  | finish {rt k decision selected validation terminal} :
      Move d ⟨.arrived decision selected validation (some terminal), rt, k⟩
        ⟨.finished terminal, { rt with transitions :=
          rt.transitions ++ [transitionOf rt decision selected validation.records true] }, k⟩

def Starts (d : CompiledGraph S W) (initialState : S) (m : Moment S W) : Prop :=
  ∃ s, (d.stateContract.Lawful → s = initialState) ∧
    m = ⟨.idle, { committedState := s, currentStage := d.entry }, 0⟩

/-- A moment that some run gets to. -/
def Reaches (d : CompiledGraph S W) (initialState : S) (m : Moment S W) : Prop :=
  ∃ start, Starts d initialState start ∧ Relation.ReflTransGen (Move d) start m

theorem Reaches.induct {d : CompiledGraph S W} {initialState : S} {I : Moment S W → Prop}
    (hstart : ∀ m, Starts d initialState m → I m) (hmove : ∀ m m', I m → Move d m m' → I m')
    {m : Moment S W} (h : Reaches d initialState m) : I m := by
  obtain ⟨start, hs, hmoves⟩ := h
  induction hmoves with
  | refl => exact hstart start hs
  | tail _ hlast ih => exact hmove _ _ ih hlast

end VidbyteSdk.Workflows
