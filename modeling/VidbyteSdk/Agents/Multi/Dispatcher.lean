import VidbyteSdk.Agents.Multi.Controller

/-!
# The dispatcher

`MultiAgentDispatcher`: from a delegate decision through approval, invocation and validation to the
report, with every failure after the start contained in the ledger.
-/

namespace VidbyteSdk.Agents.Multi

open VidbyteSdk.Lib Prog

variable {V W A Q R α β : Type}

/-! ### Transfer boundaries -/

/-- `_call_boundary` -/
def callBoundary (label : String) (boundary : Boundary W α β) (a : α) : RunM V W A β :=
  tryCatch (RunM.callOut boundary a) fun error =>
    throw (transferError ("AgentTransfer." ++ label ++ " failed.") error)

/-- `_validate_report_identity` -/
def validateReportIdentity (report : AgentReport V) (dispatch : TeamDispatch V) : RunM V W A Unit :=
  throwIf (report.taskId ≠ dispatch.taskId)
    (.transfer "Worker report task_id does not match its dispatch.")

/-- `approve_dispatch` -/
def approveDispatch (transfer : AgentTransfer V W Q R) (dispatch : TeamDispatch V)
    (ledger : TaskLedger V) : RunM V W A (Option (TaskBlocker V)) :=
  match transfer.beforeDispatch with
  | none => pure none
  | some beforeDispatch => callBoundary "before_dispatch" beforeDispatch (dispatch, ledger)

/-- `parse_report` -/
def parseReport (transfer : AgentTransfer V W Q R) (reply : R) (dispatch : TeamDispatch V)
    (ledger : TaskLedger V) : RunM V W A (AgentReport V) := do
  let report ← callBoundary "report_parser" transfer.reportParser (reply, dispatch, ledger)
  validateReportIdentity report dispatch
  pure report

/-- `validate_report` -/
def validateReport (transfer : AgentTransfer V W Q R) (report : AgentReport V)
    (dispatch : TeamDispatch V) (ledger : TaskLedger V) : RunM V W A (AgentReport V) :=
  match transfer.reportValidator with
  | none => pure report
  | some reportValidator => do
    let validated ← callBoundary "report_validator" reportValidator (report, dispatch, ledger)
    validateReportIdentity validated dispatch
    pure validated

/-! ### Workers -/

variable (team : MultiAgent V W A Q R)

/-- `_invoke_once` -/
def invokeOnce (dispatch : TeamDispatch V) (request : Q) (invocation : ℕ) : RunM V W A R := do
  let state ← get
  match state.workers.find? fun entry => entry.1 = dispatch.owner with
  | none => throw (.raised "KeyError")
  | some (_, worker) => do
    RunM.record (.invoked state.rounds dispatch.owner)
    RunM.callOut team.generateReply (worker, request, dispatch, invocation)

/-- The loop of `_invoke_with_retries` with the given number of invocations left. -/
def invokeWithRetries (dispatch : TeamDispatch V) (request : Q) : ℕ → ℕ → RunM V W A R
  | 0, _ => throw (.transfer "Worker invocation failed after bounded retries.")
  | left + 1, invocation =>
    tryCatch (invokeOnce team dispatch request invocation) fun _ =>
      invokeWithRetries dispatch request left (invocation + 1)

/-! ### One attempt -/

/-- `_build_dispatch` -/
def buildDispatch (decision : OrchestratorDecision V) (taskId owner instruction : String) :
    RunM V W A (TeamDispatch V) := do
  let state ← get
  let record ← RunM.check (state.ledger.task taskId)
  throwIf (isBlank owner = true) (.value "AgentDispatch.owner must be a non-empty string.")
  throwIf (isBlank instruction = true)
    (.value "AgentDispatch.instruction must be a non-empty string.")
  pure
    { baseRevision := state.ledger.revision
      taskId := record.taskId
      owner := strip owner
      attempt := record.attempts + 1
      goal := record.goal
      acceptanceCriteria := record.acceptanceCriteria
      instruction := strip instruction
      payload := if decision.payload.isNone then record.payload else decision.payload
      round := state.rounds }

/-- `_require_binding` -/
def requireBinding (owner : String) : RunM V W A (AgentBinding V W A Q R) :=
  match team.binding owner with
  | none => throw (.transfer "Dispatch owner has no configured worker binding.")
  | some binding => pure binding

/-- `_blocked_report` -/
def blockedReport (dispatch : TeamDispatch V) (blocker : TaskBlocker V) : AgentReport V where
  taskId := dispatch.taskId
  status := .blocked
  result := none
  evidence := []
  blockers := [blocker]
  nextAction := none

/-- The worker's part of `dispatch`, from the request to the validated report. -/
def workerReport (transfer : AgentTransfer V W Q R) (dispatch : TeamDispatch V)
    (snapshot : TaskLedger V) : RunM V W A (AgentReport V) := do
  let request ← callBoundary "request_builder" transfer.requestBuilder (dispatch, snapshot)
  let reply ← invokeWithRetries team dispatch request (transfer.maxInvocationRetries + 1) 1
  let before ← get
  let report ← parseReport transfer reply dispatch before.ledger
  let after ← get
  validateReport transfer report dispatch after.ledger

def reportOf (transfer : AgentTransfer V W Q R) (dispatch : TeamDispatch V)
    (snapshot : TaskLedger V) : Option (TaskBlocker V) → RunM V W A (AgentReport V)
  | some blocker => pure (blockedReport dispatch blocker)
  | none => workerReport team transfer dispatch snapshot

/-- `_apply_report` -/
def applyReport (dispatch : TeamDispatch V) (report : AgentReport V) : RunM V W A Bool := do
  modify fun state => { state with lastReport := some report }
  let progressed ← RunM.commit (.applyReport report dispatch.owner)
    (TaskLedger.applyReport team.same report dispatch.owner)
  afterCommit team
  pure progressed

/-- The guarded part of `dispatch`. -/
def attempt (dispatch : TeamDispatch V) : RunM V W A Bool := do
  let binding ← requireBinding team dispatch.owner
  let state ← get
  let blocker ← approveDispatch binding.transfer dispatch state.ledger
  let report ← reportOf team binding.transfer dispatch state.ledger blocker
  applyReport team dispatch report

def boundaryBlocker (error : RunError) : TaskBlocker V where
  code := "dispatch_boundary_error"
  message := "Worker dispatch failed at a configured transfer boundary."
  retryable := true
  metadata := [("error_type", team.text error.typeName)]

/-- `_record_dispatch_failure` -/
def recordDispatchFailure (dispatch : TeamDispatch V) (error : RunError) : RunM V W A Bool := do
  let blocker := boundaryBlocker team error
  RunM.commit (.recordDispatchFailure dispatch.taskId dispatch.owner blocker false)
    (TaskLedger.recordDispatchFailure dispatch.taskId dispatch.owner blocker false)
  afterCommit team
  pure false

/-- `dispatch` -/
def dispatch (dispatch : TeamDispatch V) : RunM V W A Bool :=
  tryCatch (attempt team dispatch) (recordDispatchFailure team dispatch)

/-! ### Delegation -/

/-- The guarded part of `delegate`. -/
def startAttempt (decision : OrchestratorDecision V) (taskId owner instruction : String) :
    RunM V W A (TeamDispatch V) := do
  let dispatch ← buildDispatch decision taskId owner instruction
  RunM.commit (.startTask dispatch.toAgentDispatch)
    (TaskLedger.startTask dispatch.toAgentDispatch)
  afterCommit team
  pure dispatch

/-- What `delegate` does when the attempt does not start. -/
def rejectDelegate (decision : OrchestratorDecision V) : RunM V W A Unit := do
  let message := "Delegate decision rejected by ledger readiness or ownership checks."
  RunM.commit (.recordDecisionRejection message decision.taskId decision.owner)
    (TaskLedger.recordDecisionRejection message decision.taskId decision.owner)
  afterCommit team

/-- `except (TaskLedgerError, ValueError)` -/
def isRejection (error : RunError) : Bool :=
  error.typeName = "TaskLedgerError" || error.typeName = "ValueError"

/-- `delegate`, whose decision must name its task, its owner and its instruction. -/
def delegate (decision : OrchestratorDecision V) : RunM V W A Bool :=
  match decision.taskId, decision.owner, decision.instruction with
  | some taskId, some owner, some instruction => do
    let started ← tryCatch (some <$> startAttempt team decision taskId owner instruction)
      fun error =>
        if isRejection error then do
          rejectDelegate team decision
          pure none
        else throw error
    match started with
    | none => pure false
    | some started => dispatch team started
  | _, _, _ => throw (.transfer "Delegate decision is missing task_id, owner, or instruction.")

end VidbyteSdk.Agents.Multi
