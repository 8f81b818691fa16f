import VidbyteSdk.Agents.Multi.Dispatcher

/-!
# The runner

`MultiAgentRunner`: initialize, plan, execute rounds, finalize, with what `MultiAgentPreRunner` and
`MultiAgentPostRunner` do at both ends.
-/

namespace VidbyteSdk.Agents.Multi

open VidbyteSdk.Lib Prog

variable {V W A Q R : Type}

/-! ### One round -/

section Stalls

/-- `_decision_report_failed` -/
def decisionReportFailed (decision : OrchestratorDecision V) (state : MultiAgentRunState V W A) :
    Bool :=
  match state.lastReport with
  | none => false
  | some report =>
    decide (decision.taskId = some report.taskId) &&
      (report.status = .failed || report.status = .blocked)

/-- `_update_stalls` -/
def updateStalls (decision : OrchestratorDecision V) (progressed : Bool) : RunM V W A Unit :=
  modify fun state =>
    if progressed && !decision.loopDetected && !decisionReportFailed decision state then
      { state with stalls := state.stalls - 1 }
    else { state with stalls := state.stalls + 1 }

end Stalls

variable [DecidableEq A] (team : MultiAgent V W A Q R)

abbrev RoundEnd := Option (MultiAgentStopReason × Bool)

/-- `_handle_replan` -/
def handleReplan : RunM V W A RoundEnd := do
  let replanned ← tryReplan team
  let state ← get
  if !replanned then pure (some (.maxReplans, false))
  else if state.unrecoverable then pure (some (.unrecoverable, false))
  else pure none

/-- The last line of `_run_round`: a replan once the stalls reach their threshold. -/
def replanWhenStalled : RunM V W A RoundEnd := do
  let state ← get
  if state.stalls < team.settings.replanAfterStalls.val then pure none else handleReplan team

/-- `_handle_finish` where the gate does not pass. -/
def handlePrematureFinish (decision : OrchestratorDecision V) : RunM V W A RoundEnd := do
  let state ← get
  if team.settings.allowPartialFinish && !(state.candidateAnswer.all isBlank) then do
    modify fun state => { state with finishDecision := some decision }
    pure (some (.partialFinish, false))
  else do
    rejectFinish team
    pure none

/-- `_handle_finish` -/
def handleFinish (decision : OrchestratorDecision V) : RunM V W A RoundEnd := do
  let passes ← finishGatePasses team decision
  if passes then do
    modify fun state => { state with finishDecision := some decision }
    pure (some (.completed, true))
  else handlePrematureFinish team decision

/-- `_run_round` -/
def runRound : RunM V W A RoundEnd := do
  let context ← context
  let decision ← call team.orchestrator.decide context
  rememberCandidate decision
  updateNextAction team decision
  match decision.action with
  | .finish => do
    let outcome ← handleFinish team decision
    match outcome with
    | some ended => pure (some ended)
    | none => replanWhenStalled team
  | .replan => handleReplan team
  | .delegate => do
    let progressed ← delegate team decision
    updateStalls decision progressed
    replanWhenStalled team

/-! ### Rounds -/

/-- The body of the loop of `run_rounds`. -/
def nextRound : RunM V W A RoundEnd := do
  modify fun state => { state with rounds := state.rounds + 1 }
  let state ← get
  RunM.record (.round state.ledger)
  runRound team

/-- The loop of `run_rounds` with so many rounds left. -/
def roundsLeft : ℕ → RunM V W A (MultiAgentStopReason × Bool)
  | 0 => pure (.maxRounds, false)
  | left + 1 => do
    let outcome ← nextRound team
    match outcome with
    | some ended => pure ended
    | none => roundsLeft left

/-- `run_rounds`; that this is the source's loop is `runRounds_eq`. -/
def runRounds : RunM V W A (MultiAgentStopReason × Bool) := do
  let state ← get
  roundsLeft team (team.settings.maxRounds.val - state.rounds)

/-! ### Runs -/

/-- `initialize`; the ledger of the run is there from the start. -/
def initializeRun : RunM V W A Unit := do
  RunM.callOut team.orchestrator.fork ()
  forM team.bindings installWorker

/-- `_validate_limit_return` -/
def validateLimitReturn (stopReason : MultiAgentStopReason) : RunM V W A Unit :=
  throwIf ((stopReason = .maxRounds ∨ stopReason = .maxReplans ∨ stopReason = .unrecoverable) ∧
      team.settings.returnPartialOnLimit = false)
    (.execution "Multi-agent run reached a configured limit without partial-return permission.")

/-- `finalize_result` -/
def finalizeResult (stopReason : MultiAgentStopReason) (completed : Bool) :
    RunM V W A (MultiAgentResult V) := do
  let context ← context
  let state ← get
  let content ← call team.orchestrator.finalize
    ⟨context, stopReason, completed, state.candidateAnswer, state.finishDecision⟩
  throwIf (isBlank content = true)
    (.execution "Multi-agent finalizer must return a non-blank string.")
  let state ← get
  pure
    { content := content
      completed := completed
      stopReason := stopReason
      ledger := state.ledger
      rounds := state.rounds
      replans := state.replans
      eventErrorTypes := state.eventErrorTypes }

/-- `run` -/
def run : RunM V W A (MultiAgentResult V) := do
  initializeRun team
  applyInitialPlan team
  let ended ← runRounds team
  validateLimitReturn team ended.1
  finalizeResult team ended.1 ended.2

end VidbyteSdk.Agents.Multi
