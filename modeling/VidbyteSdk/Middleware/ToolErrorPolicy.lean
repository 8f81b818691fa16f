import Mathlib.Data.PNat.Basic
import Mathlib.Tactic.NormNum
import VidbyteSdk.Lib.Text
import VidbyteSdk.Middleware.Pipeline

/-!
# The tool error policy

`ToolErrorPolicyMiddleware` of `middleware/builtins/tool_error_policy.py` and the retry loop of
`AgentRuntime._process_tool_call` around it. The policy is the one middleware that decides after a tool
call. Arguments are their JSON text, metadata values are what `str` makes of them, `lower` is `str.lower`,
and delays are rationals.
-/

namespace VidbyteSdk.Middleware

open VidbyteSdk.Lib

inductive ToolStatus where
  | success | error
  deriving DecidableEq

inductive ToolPermission where
  | safe | read | write | execute
  deriving DecidableEq

/-- A `retryable` entry of result metadata. -/
inductive RetryableValue where
  | bool (value : Bool)
  | text (text : String)
  | other
  deriving DecidableEq

structure ToolResult where
  status : ToolStatus
  error : Option String := none
  errorType : Option String := none
  retryable : Option RetryableValue := none
  deriving DecidableEq

structure ToolCall where
  toolName : String
  arguments : String
  callId : Option String
  deriving DecidableEq

inductive UnrecoverableAction where
  | «continue» | abortRun
  deriving DecidableEq

/-- The settings of a policy, as its constructor admits them. -/
structure ToolErrorPolicy where
  maxRetriesPerToolCall : Nat := 0
  retryOn : List String := ["timeout", "rate_limited", "upstream_error"]
  retryBackoffBaseSeconds : ℚ := 1 / 2
  retryBackoffMultiplier : ℚ := 2
  retryBackoffCapSeconds : ℚ := 30
  retryOnlyIdempotent : Bool := true
  onUnrecoverable : UnrecoverableAction := .continue
  maxTotalToolErrors : Option (ℕ+) := none
  base_nonneg : 0 ≤ retryBackoffBaseSeconds := by norm_num
  one_le_multiplier : 1 ≤ retryBackoffMultiplier := by norm_num
  base_le_cap : retryBackoffBaseSeconds ≤ retryBackoffCapSeconds := by norm_num

/-- `_ToolErrorPolicyRunState`. -/
structure ToolErrorPolicyRunState where
  retryAttempts : List (String × Nat) := []
  totalErrors : Nat := 0
  deriving DecidableEq

namespace ToolErrorPolicyRunState

variable (state : ToolErrorPolicyRunState)

/-- `retry_attempts.get(key, 0)`. -/
def attempts (key : String) : Nat := (state.retryAttempts.lookup key).getD 0

/-- `retry_attempts[key] = attempt`. -/
def setAttempts (key : String) (attempt : Nat) : ToolErrorPolicyRunState :=
  { state with retryAttempts := upsert Prod.fst (key, attempt) state.retryAttempts }

/-- `retry_attempts.pop(key, None)`. -/
def release (key : String) : ToolErrorPolicyRunState :=
  { state with retryAttempts := state.retryAttempts.filter fun entry => entry.1 ≠ key }

end ToolErrorPolicyRunState

/-! ### What a result says -/

def DENIED_ERROR_KINDS : List String := ["middleware_denied", "permission_denied"]

/-- The aliases of `_error_kind`. -/
def KIND_ALIASES : List (String × String) :=
  [("validation", "invalid_arguments"), ("validation_error", "invalid_arguments"),
    ("argument_error", "invalid_arguments"), ("arguments_error", "invalid_arguments")]

def given (text : Option String) : Option String := text.filter (· ≠ "")

section

variable (lower : String → String)

/-- `_error_kind`. -/
def errorKind (result : ToolResult) : String :=
  let raw := lower (strip (((given result.error).or (given result.errorType)).getD "execution_error"))
  (KIND_ALIASES.lookup raw).getD (if raw = "" then "execution_error" else raw)

/-- `_retryable`. -/
def retryable (result : ToolResult) : Option Bool :=
  match result.retryable with
  | some (.bool value) => some value
  | some (.text text) =>
    let lowered := lower (strip text)
    if lowered ∈ ["true", "1", "yes"] then some true
    else if lowered ∈ ["false", "0", "no"] then some false
    else none
  | _ => none

end

/-- `_call_key`. -/
def ToolCall.callKey (call : ToolCall) : String :=
  (given call.callId).getD s!"{call.toolName}:{call.arguments}"

/-! ### Decisions -/

namespace ToolErrorPolicy

variable (policy : ToolErrorPolicy) (lower : String → String)

/-- `_tool_permission_allows_retry`; a tool that is not known has no permission. -/
def permissionAllowsRetry (permission : Option ToolPermission) : Bool :=
  !policy.retryOnlyIdempotent || permission = some .safe || permission = some .read

/-- The tests of `_should_retry` but the last: what does not depend on the budget. -/
def mayRetry (permission : Option ToolPermission) (result : ToolResult) : Bool :=
  0 < policy.maxRetriesPerToolCall && errorKind lower result ∉ DENIED_ERROR_KINDS &&
    errorKind lower result ∈ policy.retryOn && retryable lower result ≠ some false &&
    policy.permissionAllowsRetry permission

/-- `_should_retry`. -/
def shouldRetry (call : ToolCall) (permission : Option ToolPermission) (result : ToolResult)
    (state : ToolErrorPolicyRunState) : Bool :=
  policy.mayRetry lower permission result && state.attempts call.callKey < policy.maxRetriesPerToolCall

/-- `_circuit_breaker_tripped`. -/
def circuitBreakerTripped (state : ToolErrorPolicyRunState) : Bool :=
  match policy.maxTotalToolErrors with
  | none => false
  | some limit => (limit : Nat) ≤ state.totalErrors

/-- `_compute_delay`. -/
def computeDelay (attempt : Nat) : ℚ :=
  min policy.retryBackoffCapSeconds
    (policy.retryBackoffBaseSeconds * policy.retryBackoffMultiplier ^ (attempt - 1))

theorem computeDelay_nonneg (attempt : Nat) : 0 ≤ policy.computeDelay attempt := by
  have hbase := policy.base_nonneg
  have hmultiplier : 0 ≤ policy.retryBackoffMultiplier := zero_le_one.trans policy.one_le_multiplier
  exact le_min (hbase.trans policy.base_le_cap) (mul_nonneg hbase (pow_nonneg hmultiplier _))

abbrev Decided : Type := MiddlewareDecision Unit ToolResult ℚ

/-- `_retry_decision`. -/
def retryDecision (call : ToolCall) (kind : String) (state : ToolErrorPolicyRunState) :
    Decided × ToolErrorPolicyRunState :=
  let attempt := state.attempts call.callKey + 1
  let delay := policy.computeDelay attempt
  ({ action := .retry, reason := some "tool_error_retry", sleepSeconds := delay
     metadata := [("tool_name", .text call.toolName), ("error", .text kind),
       ("attempt", .other attempt),
       ("max_retries_per_tool_call", .other policy.maxRetriesPerToolCall),
       ("delay_seconds", .other delay)]
     sleepSeconds_nonneg := policy.computeDelay_nonneg attempt },
    state.setAttempts call.callKey attempt)

/-- `_continue_with_error_metadata`. -/
def continueWithErrorMetadata (kind : String) (state : ToolErrorPolicyRunState) : Decided :=
  .continueWith [("tool_error", .text kind), ("total_tool_errors", .other state.totalErrors)] none

/-- `_abort_for_circuit`. -/
def abortForCircuit (call : ToolCall) (kind : String) (state : ToolErrorPolicyRunState) : Decided :=
  { action := .abortRun, reason := some "tool_error_circuit_break"
    metadata := [("tool_name", .text call.toolName), ("error", .text kind),
      ("total_tool_errors", .other state.totalErrors),
      ("max_total_tool_errors", .other ((policy.maxTotalToolErrors.map PNat.val).getD 0))] }

/-- `_abort_for_unrecoverable`. -/
def abortForUnrecoverable (call : ToolCall) (kind : String) (state : ToolErrorPolicyRunState) :
    Decided :=
  { action := .abortRun, reason := some "tool_error_unrecoverable"
    metadata := [("tool_name", .text call.toolName), ("error", .text kind),
      ("total_tool_errors", .other state.totalErrors)] }

/-- `after_tool_call`. -/
def afterToolCall (call : ToolCall) (permission : Option ToolPermission) (result : ToolResult)
    (state : ToolErrorPolicyRunState) : Decided × ToolErrorPolicyRunState :=
  if result.status ≠ .error then (.continueWith [] none, state.release call.callKey)
  else
    let kind := errorKind lower result
    if kind ∈ DENIED_ERROR_KINDS then (.continueWith [] none, state)
    else
      let state := { state with totalErrors := state.totalErrors + 1 }
      if policy.circuitBreakerTripped state then
        (policy.abortForCircuit call kind state, state.release call.callKey)
      else if policy.shouldRetry lower call permission result state then
        policy.retryDecision call kind state
      else if policy.onUnrecoverable = .abortRun then
        (abortForUnrecoverable call kind state, state.release call.callKey)
      else (continueWithErrorMetadata kind state, state.release call.callKey)

end ToolErrorPolicy

/-! ### The retry loop -/

structure DenialMetadata where
  error : Option String := none
  errorType : Option String := none
  retryable : Option RetryableValue := none
  deriving DecidableEq

/-- The result `_middleware_denied_tool` builds. -/
def middlewareDeniedResult (metadata : DenialMetadata) : ToolResult :=
  { status := .error, error := some (metadata.error.getD "middleware_denied")
    errorType := metadata.errorType, retryable := metadata.retryable }

/-- A call as it enters the retry loop; a denied one is never executed. -/
structure ToolRequest where
  call : ToolCall
  permission : Option ToolPermission
  denied : Option DenialMetadata := none
  deriving DecidableEq

/-- The result of one pass of the loop, where `attempt` is what each execution gives. -/
def ToolRequest.result (request : ToolRequest) (attempt : Nat → ToolResult) (pass : Nat) : ToolResult :=
  match request.denied with
  | some metadata => middlewareDeniedResult metadata
  | none => attempt pass

/-- How often the loop went round again, the last decision and the state after it. -/
structure RetryLoopEnd where
  retries : Nat
  decision : ToolErrorPolicy.Decided
  state : ToolErrorPolicyRunState

def RetryLoopEnd.executions (last : RetryLoopEnd) (request : ToolRequest) : Nat :=
  if request.denied.isSome then 0 else last.retries + 1

section

variable (policy : ToolErrorPolicy) (lower : String → String)

/-- The loop of `_process_tool_call` from one pass on; it has no end once the fuel is out. -/
def retryLoop (request : ToolRequest) (attempt : Nat → ToolResult) :
    (fuel pass : Nat) → ToolErrorPolicyRunState → Option RetryLoopEnd
  | 0, _, _ => none
  | fuel + 1, pass, state =>
    let decided := policy.afterToolCall lower request.call request.permission
      (request.result attempt pass) state
    if decided.1.action = .retry then retryLoop request attempt fuel (pass + 1) decided.2
    else some ⟨pass, decided.1, decided.2⟩

/-- The retry loop of `_process_tool_call`; it goes round at most `max_retries_per_tool_call` times. -/
def processToolCall (request : ToolRequest) (attempt : Nat → ToolResult)
    (state : ToolErrorPolicyRunState) : Option RetryLoopEnd :=
  retryLoop policy lower request attempt (policy.maxRetriesPerToolCall + 1) 0 state

def processToolCalls : List (ToolRequest × (Nat → ToolResult)) → ToolErrorPolicyRunState →
    Option ToolErrorPolicyRunState
  | [], state => some state
  | (request, attempt) :: inputs, state =>
    match processToolCall policy lower request attempt state with
    | none => none
    | some last =>
      if last.decision.action = .abortRun then none else processToolCalls inputs last.state

end

end VidbyteSdk.Middleware
