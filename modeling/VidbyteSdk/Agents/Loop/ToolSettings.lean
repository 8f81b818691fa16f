import Mathlib.Data.PNat.Basic

/-!
# Tool settings

`ToolSettings` of `agents/settings/tool.py` and the records of `lib/dataclasses/tools.py` it reads, over
tool arguments `A`. The decisions are pure functions of the contexts recorded so far. Every limit is
positive by its type, as `_validate` makes it. What a fingerprint digests is left open: the decisions
only compare fingerprints.
-/

namespace VidbyteSdk.Agents.Loop

/-! ### Records -/

def isDoneToolName : String := "isDone"

structure ToolCall (A : Type) where
  toolName : String
  arguments : A
  callId : Option String := none
  deriving DecidableEq

inductive ToolStatus where
  | success | error
  deriving DecidableEq

structure ToolResult where
  toolName : String
  status : ToolStatus
  output : String
  deriving DecidableEq

def ToolResult.error (toolName output : String) : ToolResult := ⟨toolName, .error, output⟩

inductive ToolCallState where
  | requested | succeeded | failed | denied
  deriving DecidableEq

/-- Structured context for one agent-managed tool call; `internal` is the mark in its metadata. -/
structure ToolCallContext (A : Type) where
  toolName : String
  arguments : A
  state : ToolCallState
  callId : Option String := none
  result : ToolResult
  iterationCount : Option Nat
  internal : Bool := false
  deriving DecidableEq

inductive BudgetReason where
  | maxCallsPerIteration | slidingWindowMaxCalls | maxIdenticalCalls | maxConsecutiveFailures
  | maxErrorCalls
  deriving DecidableEq

inductive DenialReason where
  | toolSettingsDenied | maxCallsPerTool | allowedToolsDenied
  deriving DecidableEq

def DenialReason.value : DenialReason → String
  | toolSettingsDenied => "tool_settings_denied"
  | maxCallsPerTool => "tool_settings_max_calls_per_tool"
  | allowedToolsDenied => "allowed_tools_denied"

structure ToolSettings (A : Type) where
  deniedTools : List String := []
  maxCalls : Option ℕ+ := none
  maxCallsPerTool : List (String × ℕ+) := []
  abortsOnDeny : Bool := false
  maxCallsPerIteration : Option ℕ+ := none
  maxIdenticalCalls : Option ℕ+ := none
  maxConsecutiveFailures : Option ℕ+ := none
  maxErrorCalls : Option ℕ+ := none
  /-- `sliding_window_max_calls` and `sliding_window_iterations`, which are set together. -/
  slidingWindow : Option (ℕ+ × ℕ+) := none
  fingerprint : String → A → String

variable {A : Type}

/-! ### Counting -/

/-- `_is_excluded_context`: denied calls and internal tools consume no budget. -/
def isExcludedContext (context : ToolCallContext A) : Bool :=
  context.state = .denied || context.toolName = isDoneToolName || context.internal

/-- `_countable_contexts`. -/
def countableContexts (contexts : List (ToolCallContext A)) : List (ToolCallContext A) :=
  contexts.filter fun context => !isExcludedContext context

/-- `_executed_counts`, of one tool. -/
def executedCount (contexts : List (ToolCallContext A)) (toolName : String) : Nat :=
  contexts.countP fun context => context.state ≠ .denied ∧ context.toolName = toolName

def callsInIteration (contexts : List (ToolCallContext A)) (iterationCount : Nat) : Nat :=
  contexts.countP fun context => context.iterationCount = some iterationCount

/-- The calls of the iterations from `first` to `last`. -/
def callsInWindow (contexts : List (ToolCallContext A)) (first last : Nat) : Nat :=
  contexts.countP fun context => ∃ i ∈ context.iterationCount, first ≤ i ∧ i ≤ last

def identicalCalls (settings : ToolSettings A) (contexts : List (ToolCallContext A))
    (fingerprint : String) : Nat :=
  contexts.countP fun context => settings.fingerprint context.toolName context.arguments = fingerprint

def failureStreak (contexts : List (ToolCallContext A)) : Nat :=
  (contexts.reverse.takeWhile fun context => context.state = .failed).length

def failedCalls (contexts : List (ToolCallContext A)) : Nat :=
  contexts.countP fun context => context.state = .failed

/-! ### Decisions -/

def reached (limit : Option ℕ+) (current : Nat) : Bool :=
  match limit with
  | none => false
  | some limit => (limit : Nat) ≤ current

namespace ToolSettings

variable (settings : ToolSettings A)

/-- `denial`: the reason a call must be blocked for, if any. -/
def denial (toolName : String) (executedCounts : String → Nat) : Option DenialReason :=
  if toolName ∈ settings.deniedTools then some .toolSettingsDenied
  else if reached (settings.maxCallsPerTool.lookup toolName) (executedCounts toolName) then
    some .maxCallsPerTool
  else none

/-- `_per_iteration_budget_stop`. -/
def perIterationBudgetStop (contexts : List (ToolCallContext A)) (iterationCount : Nat) :
    Option BudgetReason :=
  if reached settings.maxCallsPerIteration (callsInIteration contexts iterationCount) then
    some .maxCallsPerIteration
  else none

/-- `_sliding_window_budget_stop`. -/
def slidingWindowBudgetStop (contexts : List (ToolCallContext A)) (iterationCount : Nat) :
    Option BudgetReason :=
  match settings.slidingWindow with
  | none => none
  | some (maxCalls, iterations) =>
    let windowStart := max 1 (iterationCount + 1 - iterations)
    if reached (some maxCalls) (callsInWindow contexts windowStart iterationCount) then
      some .slidingWindowMaxCalls
    else none

/-- `_identical_call_budget_stop`. -/
def identicalCallBudgetStop (toolName : String) (arguments : A)
    (contexts : List (ToolCallContext A)) : Option BudgetReason :=
  let candidate := settings.fingerprint toolName arguments
  if reached settings.maxIdenticalCalls (identicalCalls settings contexts candidate) then
    some .maxIdenticalCalls
  else none

/-- `budget_stop`: the hard budget a call would exceed. -/
def budgetStop (toolName : String) (arguments : A) (contexts : List (ToolCallContext A))
    (iterationCount : Nat) : Option BudgetReason :=
  let countable := countableContexts contexts
  settings.perIterationBudgetStop countable iterationCount
    <|> settings.slidingWindowBudgetStop countable iterationCount
    <|> settings.identicalCallBudgetStop toolName arguments countable

/-- `_consecutive_failure_budget_stop`. -/
def consecutiveFailureBudgetStop (contexts : List (ToolCallContext A)) : Option BudgetReason :=
  if reached settings.maxConsecutiveFailures (failureStreak contexts) then some .maxConsecutiveFailures
  else none

/-- `_total_error_budget_stop`. -/
def totalErrorBudgetStop (contexts : List (ToolCallContext A)) : Option BudgetReason :=
  if reached settings.maxErrorCalls (failedCalls contexts) then some .maxErrorCalls else none

/-- `failure_budget_stop`. -/
def failureBudgetStop (contexts : List (ToolCallContext A)) : Option BudgetReason :=
  let countable := countableContexts contexts
  settings.consecutiveFailureBudgetStop countable <|> settings.totalErrorBudgetStop countable

end ToolSettings

end VidbyteSdk.Agents.Loop
