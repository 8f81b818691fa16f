import VidbyteSdk.Agents.Loop.Runtime
import VidbyteSdk.Lib.Preferring
import VidbyteSdk.Sessions.FailureRouter

/-!
# Failures from the metadata of a reply

`FailureMetadataNormalizer.from_reply` of `sessions/failure/router.py`, and the metadata that a run of the direct
runtime (`agents/runtime.py`) leaves in its reply: why it stopped, what became of its tool calls, and what
contracts, middleware and the fallback chain have published. The details of a failure stand as they are given to
`FailureSafety`.
-/

namespace VidbyteSdk.Sessions

open VidbyteSdk.Lib
open VidbyteSdk.Agents.Loop (ToolCallState BudgetReason hardBudgetStop)

/-! ### The vocabulary -/

namespace FailureCode

def contractUnsatisfied : FailureCode := .other "contract.unsatisfied"
def dataSourceUnavailable : FailureCode := .other "data.source_unavailable"
def modelRequestFailed : FailureCode := .other "model.request_failed"
def resourceExhausted : FailureCode := .other "resource.exhausted"
def runtimeError : FailureCode := .other "runtime.error"
def runtimeMaxIterations : FailureCode := .other "runtime.max_iterations"
def runtimeMaxTokens : FailureCode := .other "runtime.max_tokens"
def runtimeMaxToolCalls : FailureCode := .other "runtime.max_tool_calls"
def runtimeMiddlewareAbort : FailureCode := .other "runtime.middleware_abort"
def runtimeMiddlewareError : FailureCode := .other "runtime.middleware_error"
def runtimeTimeout : FailureCode := .other "runtime.timeout"
def sessionPersistenceFailed : FailureCode := .other "session.persistence_failed"
def toolArgumentsInvalid : FailureCode := .other "tool.arguments_invalid"
def toolCallLimitReached : FailureCode := .other "tool.call_limit_reached"
def toolCallsPerIterationLimit : FailureCode := .other "tool.calls_per_iteration_limit"
def toolConsecutiveFailureLimit : FailureCode := .other "tool.consecutive_failure_limit"
def toolErrorLimit : FailureCode := .other "tool.error_limit"
def toolExecutionFailed : FailureCode := .other "tool.execution_failed"
def toolIdenticalCallLimit : FailureCode := .other "tool.identical_call_limit"
def toolLoopLimit : FailureCode := .other "tool.loop_limit"
def toolNotFound : FailureCode := .other "tool.not_found"
def toolPermissionDenied : FailureCode := .other "tool.permission_denied"
def toolResultInvalid : FailureCode := .other "tool.result_invalid"
def toolResultMissing : FailureCode := .other "tool.result_missing"
def toolSlidingWindowLimit : FailureCode := .other "tool.sliding_window_limit"
def toolTimeout : FailureCode := .other "tool.timeout"
def usageRecordingCorrupted : FailureCode := .other "usage.recording_corrupted"

end FailureCode

def stateValue : ToolCallState → String
  | .requested => "requested"
  | .succeeded => "succeeded"
  | .failed => "failed"
  | .denied => "denied"

/-! ### The metadata -/

/-- A tool call of the metadata: its state, and of its result's metadata the `error` and the `error_type`, where
they are not empty. -/
structure ToolCallRecord where
  state : ToolCallState
  error : Option String
  errorType : Option String

structure ContractEvaluation where
  name : String
  satisfied : Bool

structure MiddlewareEventRecord where
  middlewareName : String
  hook : String
  action : String
  reason : String

structure FallbackRecord where
  used : Bool
  attempts : ℕ
  finalModel : Option String

structure ReplyMetadata where
  stopReason : Option String
  iterationCount : ℕ
  tokensUsed : Option ℕ
  toolCallStates : List String
  toolCalls : List ToolCallRecord
  contractEvaluations : List ContractEvaluation := []
  toolSettingsBudget : Option String := none
  events : List MiddlewareEventRecord := []
  fallback : Option FallbackRecord := none
  sessionError : Option String := none
  recordingCorrupted : Bool := false

inductive FailureDetails
  | stop (stopReason : String) (iterationCount : ℕ) (tokensUsed : Option ℕ)
  | unmet (names : List String)
  | failedCalls (count : ℕ)
  | deniedCalls (count : ℕ)
  | budget (reason : String)
  | abort (hook reason : String)
  | fallback (attemptCount : ℕ) (finalModel : Option String)
  | errorType (name : String)
  | recordingCorrupted
  deriving DecidableEq

structure NormalizedFailure extends Failure where
  details : FailureDetails
  id := ""
  deriving DecidableEq

namespace FailureMetadataNormalizer

/-- `_STOP_CODES` -/
def stopCodes : List (String × FailureCode) :=
  [("max_iterations", .runtimeMaxIterations), ("max_tokens", .runtimeMaxTokens),
    ("max_tool_calls", .runtimeMaxToolCalls), ("max_calls_per_iteration", .toolCallsPerIterationLimit),
    ("max_identical_calls", .toolIdenticalCallLimit), ("max_consecutive_failures", .toolConsecutiveFailureLimit),
    ("max_error_calls", .toolErrorLimit), ("sliding_window_max_calls", .toolSlidingWindowLimit),
    ("tool_settings_denied", .toolPermissionDenied), ("tool_loop_limit", .toolLoopLimit),
    ("timeout", .runtimeTimeout), ("max_spend", .resourceExhausted),
    ("middleware_abort", .runtimeMiddlewareAbort), ("contract_unsatisfied", .contractUnsatisfied),
    ("error", .runtimeError)]

/-- `_TOOL_ERROR_CODES` -/
def toolErrorCodes : List (String × FailureCode) :=
  [("unknown_tool", .toolNotFound), ("permission_denied", .toolPermissionDenied),
    ("middleware_denied", .toolPermissionDenied), ("tool_settings_denied", .toolPermissionDenied),
    ("tool_settings_max_calls_per_tool", .toolPermissionDenied), ("allowed_tools_denied", .toolPermissionDenied),
    ("timeout", .toolTimeout), ("validation_error", .toolArgumentsInvalid),
    ("invalid_arguments", .toolArgumentsInvalid), ("output_schema_violation", .toolResultInvalid),
    ("missing_result", .toolResultMissing), ("execution_error", .toolExecutionFailed),
    ("mcp_error", .dataSourceUnavailable)]

/-- `str.lower`, as far as the names of the tables can tell: besides the ASCII letters only the Kelvin sign lowers
to one of theirs. -/
def lower (text : String) : String :=
  text.map fun c => if c = Char.ofNat 0x212A then 'k' else c.toLower

/-- `ToolsFormatter._normalized_error_kind` -/
def normalizedErrorKind (rawKind : String) : String :=
  let raw := lower (strip rawKind)
  let aliases := [("validation", "invalid_arguments"), ("validation_error", "invalid_arguments"),
    ("argument_error", "invalid_arguments"), ("arguments_error", "invalid_arguments")]
  (aliases.lookup raw).getD (if raw = "" then "execution_error" else raw)

/-! ### What each appender adds -/

/-- `cls._STOP_CODES.get(stop_reason, FailureCode.RUNTIME_ERROR)` -/
def stopCode (stopReason : String) : FailureCode := (stopCodes.lookup stopReason).getD .runtimeError

/-- `_append_stop_failure` -/
def stopFailure (failures : List NormalizedFailure) (metadata : ReplyMetadata) : List NormalizedFailure :=
  match metadata.stopReason with
  | none => []
  | some stopReason =>
    if stopReason = "final_response" ∨ stopReason = "is_done" then []
    else
      let code := stopCode stopReason
      if failures.any fun item => item.code = code ∧ item.status = .exhausted then []
      else if code = .runtimeMiddlewareAbort ∧ failures.any fun item =>
          item.code = .runtimeMiddlewareAbort ∨ item.code = .runtimeMiddlewareError then []
      else
        let exhausted := code ≠ .runtimeMiddlewareAbort
        [{ code := code, source := "agent_runtime", phase := .loop
           status := if exhausted then .exhausted else .terminal
           disposition := if exhausted then .route else .stop
           details := .stop stopReason metadata.iterationCount metadata.tokensUsed }]

/-- `_append_contract_failures` -/
def contractFailures (metadata : ReplyMetadata) : List NormalizedFailure :=
  let unmet := metadata.contractEvaluations.filter fun row => !row.satisfied
  let stopped := metadata.stopReason = some "contract_unsatisfied"
  if unmet = [] then []
  else
    [{ code := .contractUnsatisfied, source := "output_contract", phase := .output
       status := if stopped then .exhausted else .observed
       disposition := if stopped then .route else .record
       details := .unmet (unmet.map (·.name)) }]

def callAggregate (code : FailureCode) (details : ℕ → FailureDetails) (count : ℕ) : List NormalizedFailure :=
  if count = 0 then []
  else [{ code := code, source := "agent_runtime", phase := .tool, details := details count }]

def budgetFailure (metadata : ReplyMetadata) : List NormalizedFailure :=
  match metadata.toolSettingsBudget with
  | none => []
  | some budget =>
    [{ code := (stopCodes.lookup budget).getD .toolCallLimitReached, source := "tool_settings", phase := .tool
       status := .exhausted, disposition := .route, details := .budget budget }]

/-- `_append_tool_failures` -/
def toolFailures (metadata : ReplyMetadata) : List NormalizedFailure :=
  callAggregate .toolExecutionFailed .failedCalls (metadata.toolCallStates.count "failed")
    ++ callAggregate .toolPermissionDenied .deniedCalls (metadata.toolCallStates.count "denied")
    ++ budgetFailure metadata

def toolErrorCode (call : ToolCallRecord) : Option FailureCode :=
  match call.error.or call.errorType with
  | none => none
  | some raw => toolErrorCodes.lookup (normalizedErrorKind raw)

/-- `counts[code] = counts.get(code, 0) + 1` -/
def countCode (counts : List (FailureCode × ℕ)) (code : FailureCode) : List (FailureCode × ℕ) :=
  upsert Prod.fst (code, (counts.lookup code).getD 0 + 1) counts

/-- `_append_tool_context_failures` -/
def toolContextFailures (metadata : ReplyMetadata) : List NormalizedFailure :=
  ((metadata.toolCalls.filterMap toolErrorCode).foldl countCode []).map fun (code, count) =>
    { code := code, source := "tool_runtime", phase := .tool, details := .failedCalls count }

/-- `_append_middleware_failures` -/
def middlewareFailures (metadata : ReplyMetadata) : List NormalizedFailure :=
  (metadata.events.filter fun event => event.action = "abort_run").map fun event =>
    { code := if event.reason = "middleware_error" then .runtimeMiddlewareError else .runtimeMiddlewareAbort
      source := event.middlewareName, phase := .runtime, status := .terminal, disposition := .stop
      details := .abort event.hook event.reason }

/-- `_append_fallback_failure` -/
def fallbackFailure (metadata : ReplyMetadata) : List NormalizedFailure :=
  match metadata.fallback with
  | none => []
  | some fallback =>
    if fallback.used then
      [{ code := .modelRequestFailed, source := "agent_fallback", phase := .model, status := .recovered
         disposition := .record, handledBy := some "agent_fallback"
         details := .fallback fallback.attempts fallback.finalModel }]
    else []

/-- `_error_type` -/
def errorType (value : String) : String := String.ofList ((value.toList.takeWhile (· ≠ ':')).take 120)

def sessionFailure (metadata : ReplyMetadata) : List NormalizedFailure :=
  match metadata.sessionError with
  | none => []
  | some error =>
    [{ code := .sessionPersistenceFailed, source := "session", phase := .session, disposition := .continue
       details := .errorType (errorType error) }]

def usageFailure (metadata : ReplyMetadata) : List NormalizedFailure :=
  if metadata.recordingCorrupted then
    [{ code := .usageRecordingCorrupted, source := "usage_tracker", phase := .observability
       disposition := .continue, details := .recordingCorrupted }]
  else []

/-- `_append_integrity_failures` -/
def integrityFailures (metadata : ReplyMetadata) : List NormalizedFailure :=
  sessionFailure metadata ++ usageFailure metadata

/-! ### Recording them -/

/-- `Failure(...)`: a source that is blank is a `ValueError`. -/
def construct (newId : ℕ → String) (failures : List NormalizedFailure) (failure : NormalizedFailure) :
    Option (List NormalizedFailure) :=
  if isBlank failure.source then none
  else some (failures ++ [{ failure with source := strip failure.source, id := newId failures.length }])

def appendFailures (newId : ℕ → String) (failures added : List NormalizedFailure) :
    Option (List NormalizedFailure) :=
  added.foldlM (construct newId) failures

def routable (failure : NormalizedFailure) : Bool := failure.status = .exhausted ∨ failure.disposition = .route

/-- `_deduplicate` -/
def deduplicate (failures : List NormalizedFailure) : List NormalizedFailure :=
  onePerKey (fun failure : NormalizedFailure => (failure.code, failure.source)) routable failures

/-- `from_reply`, for metadata without a list of failures; `none` is the `ValueError` of a blank source. The
`n`-th failure of the reply has the id `newId n`. -/
def fromReply (newId : ℕ → String) (metadata : ReplyMetadata) : Option (List NormalizedFailure) := do
  let failures ← appendFailures newId [] (contractFailures metadata)
  let failures ← appendFailures newId failures (toolFailures metadata)
  let failures ← appendFailures newId failures (middlewareFailures metadata)
  -- the stop comes behind what may have recorded it with more details
  let failures ← appendFailures newId failures (stopFailure failures metadata)
  let failures ← appendFailures newId failures (toolContextFailures metadata)
  let failures ← appendFailures newId failures (fallbackFailure metadata)
  let failures ← appendFailures newId failures (integrityFailures metadata)
  pure (deduplicate failures)

end FailureMetadataNormalizer

/-! ### The metadata of a direct run -/

inductive AgentStopReason
  | finalResponse | isDone | maxIterations | maxTokens | maxToolCalls | maxCallsPerIteration | maxIdenticalCalls
  | maxConsecutiveFailures | maxErrorCalls | slidingWindowMaxCalls | timeout | maxSpend | middlewareAbort
  | toolSettingsDenied | toolLoopLimit | contractUnsatisfied | finishReviewRejected | error
  deriving DecidableEq

def AgentStopReason.value : AgentStopReason → String
  | .finalResponse => "final_response"
  | .isDone => "is_done"
  | .maxIterations => "max_iterations"
  | .maxTokens => "max_tokens"
  | .maxToolCalls => "max_tool_calls"
  | .maxCallsPerIteration => "max_calls_per_iteration"
  | .maxIdenticalCalls => "max_identical_calls"
  | .maxConsecutiveFailures => "max_consecutive_failures"
  | .maxErrorCalls => "max_error_calls"
  | .slidingWindowMaxCalls => "sliding_window_max_calls"
  | .timeout => "timeout"
  | .maxSpend => "max_spend"
  | .middlewareAbort => "middleware_abort"
  | .toolSettingsDenied => "tool_settings_denied"
  | .toolLoopLimit => "tool_loop_limit"
  | .contractUnsatisfied => "contract_unsatisfied"
  | .finishReviewRejected => "finish_review_rejected"
  | .error => "error"

/-- `_agent_stop_reason_for_tool_budget` -/
def agentStopReasonForToolBudget (reason : String) : AgentStopReason :=
  (([("max_calls_per_iteration", .maxCallsPerIteration), ("max_identical_calls", .maxIdenticalCalls),
    ("max_consecutive_failures", .maxConsecutiveFailures), ("max_error_calls", .maxErrorCalls),
    ("sliding_window_max_calls", .slidingWindowMaxCalls)] : List (String × AgentStopReason)).lookup reason).getD
      .toolSettingsDenied

/-- How the loop of a direct run ends: with a stop reason, at a hard budget of its tool settings, or by a
middleware. -/
inductive LoopEnd
  | stopped (stopReason : AgentStopReason)
  | hardBudget (reason : BudgetReason)
  | aborted

def LoopEnd.stopReason : LoopEnd → AgentStopReason
  | .stopped stopReason => stopReason
  | .hardBudget reason => agentStopReasonForToolBudget (hardBudgetStop.text reason)
  | .aborted => .middlewareAbort

/-- A direct run: how its loop ended, whether an `after_run` hook aborts it then, and what else its reply tells. -/
structure DirectRun where
  ending : LoopEnd
  afterRunAborts : Bool
  iterationCount : ℕ
  tokensUsed : Option ℕ
  contexts : List ToolCallRecord
  contractEvaluations : List ContractEvaluation
  fallback : Option FallbackRecord
  events : List MiddlewareEventRecord
  sessionError : Option String
  recordingCorrupted : Bool

namespace DirectRun

/-- `_runtime_metadata` -/
def runtimeMetadata (run : DirectRun) (stopReason : AgentStopReason) : ReplyMetadata where
  stopReason := some stopReason.value
  iterationCount := run.iterationCount
  tokensUsed := run.tokensUsed
  toolCallStates := run.contexts.map fun context => stateValue context.state
  toolCalls := run.contexts
  recordingCorrupted := run.recordingCorrupted

/-- The metadata of `_stopped_result`, `_final_result` and `_middleware_abort_result`, to which
`_tool_settings_hard_budget_stop` adds its budget. -/
def resultMetadata (run : DirectRun) (ending : LoopEnd) : ReplyMetadata :=
  { run.runtimeMetadata ending.stopReason with
    toolSettingsBudget := match ending with
      | .hardBudget reason => some (hardBudgetStop.text reason)
      | _ => none }

def finalEnd (run : DirectRun) : LoopEnd := if run.afterRunAborts then .aborted else run.ending

/-- `_finish_result`: an abort of the hook takes the result's place, and what the run has published joins it. The
session sets its error last. -/
def metadata (run : DirectRun) : ReplyMetadata :=
  { run.resultMetadata run.finalEnd with
    contractEvaluations := run.contractEvaluations
    fallback := run.fallback
    events := run.events
    sessionError := run.sessionError }

def stopReason (run : DirectRun) : AgentStopReason := run.finalEnd.stopReason

end DirectRun

def LoopEnd.of : Agents.Loop.AgentStopReason → LoopEnd
  | .finalResponse => .stopped .finalResponse
  | .isDone => .stopped .isDone
  | .maxIterations => .stopped .maxIterations
  | .maxTokens => .stopped .maxTokens
  | .maxToolCalls => .stopped .maxToolCalls
  | .budget reason => .hardBudget reason
  | .timeout => .stopped .timeout
  | .maxSpend => .stopped .maxSpend
  | .middlewareAbort => .aborted
  | .toolSettingsDenied => .stopped .toolSettingsDenied
  | .contractUnsatisfied => .stopped .contractUnsatisfied

/-- The run whose loop has given this result, in which an abort of the hook stands already; `errors` reads the
metadata of a call's result. -/
def DirectRun.ofResult {A : Type} (run : DirectRun) (result : Agents.Loop.AgentResult A)
    (errors : Agents.Loop.ToolCallContext A → Option String × Option String) : DirectRun :=
  { run with
    ending := .of result.stopReason
    afterRunAborts := false
    contexts := result.toolCalls.map fun context => ⟨context.state, (errors context).1, (errors context).2⟩ }

end VidbyteSdk.Sessions
