import VidbyteSdk.Agents.Loop.ToolSettings
import VidbyteSdk.Lib.Prog
import VidbyteSdk.Lib.Text

/-!
# The direct agent loop

`AgentRuntime._arun_once` of `agents/runtime.py` and what it calls, function by function, as programs
over the state of one run, with tool arguments `A`, provider messages `T` and a world `W`.

The model, the tools, the middleware and the hooks of specialized runtimes are callbacks: functions of
what they are given and of the world, which may raise. A provider is the wire format its name stands
for, which is all the loop reads of it; a tool result message keeps the result it renders. Left out are
context-window algorithms and rewrites of the outgoing list, which run under switches of their own, and
what only reports on a run (spans, usage, speed, metadata, model call counts). The loops of the source
have no bound of their own, so the model gives them fuel; running out is an outcome of its own.
-/

namespace VidbyteSdk.Agents.Loop

open VidbyteSdk.Lib Prog

/-! ### Messages -/

inductive WireFormat where
  | openai | anthropic | gemini
  deriving DecidableEq

/-- A message for the provider: one that is passed on as it came, a text, or a tool result. -/
inductive Message (T : Type) where
  | raw (message : T)
  | text (role content : String)
  | openaiToolResult (toolCallId name : String) (result : ToolResult)
  | anthropicToolResult (toolUseId : String) (result : ToolResult)
  | geminiFunctionResponse (name : String) (result : ToolResult)
  deriving DecidableEq

/-- `format_tool_result`: the result of a call under its id, or else under its tool's name. -/
def formatToolResult {A T : Type} (call : ToolCall A) (result : ToolResult) :
    WireFormat → Message T
  | .openai => .openaiToolResult callId call.toolName result
  | .anthropic => .anthropicToolResult callId result
  | .gemini => .geminiFunctionResponse call.toolName result
where
  callId : String :=
    match call.callId with
    | some id => if id = "" then call.toolName else id
    | none => call.toolName

/-- What a message of the run's list is: one of the caller's, the turn of a response with the calls
parsed from it, the result of one of its calls, or another message of the loop. -/
inductive Origin (A : Type) where
  | caller
  | turn (iteration : Nat) (calls : List (ToolCall A))
  | result (iteration : Nat) (call : ToolCall A)
  | note
  deriving DecidableEq

/-- A message with its origin, which the loop does not read. -/
structure Entry (A T : Type) where
  origin : Origin A
  message : Message T
  deriving DecidableEq

def Entry.note {A T : Type} (role content : String) : Entry A T := ⟨.note, .text role content⟩

/-- What the loop reads of a model response: the calls `parse_tool_calls` finds, the turn that
`format_assistant_tool_calls` echoes, its text and its tokens. -/
structure ModelReply (A T : Type) where
  toolCalls : Except Raised (List (ToolCall A))
  assistantTurn : Option T
  text : String
  tokens : Option Nat := none

/-! ### Middleware -/

inductive MiddlewareAction where
  | continue | sleep | abortRun | denyTool | retry
  deriving DecidableEq

structure MiddlewareDecision where
  action : MiddlewareAction := .continue
  reason : Option String := none
  deriving DecidableEq

def MiddlewareDecision.reasonOr (decision : MiddlewareDecision) (text : String) : String :=
  match decision.reason with
  | some reason => if reason = "" then text else reason
  | none => text

inductive FinishReviewAction where
  | accept | continue | stop
  deriving DecidableEq

structure FinishReview where
  action : FinishReviewAction := .accept
  feedback : String := ""
  deriving DecidableEq

inductive Hook (A : Type) where
  | beforeRun | beforeIteration | beforeModelCall | afterModelResponse | onModelError (raised : Raised)
  | beforeToolCall (call : ToolCall A) | afterToolCall (call : ToolCall A) (result : ToolResult)
  | afterIteration | afterRun

inductive ToolReply where
  | returned (result : ToolResult)
  | permissionDenied (message : String)

/-! ### Settings and surroundings -/

/-- `AgentRuntimeConfig`. -/
structure RuntimeConfig (A : Type) where
  maxIterations : Option ℕ+ := none
  maxTokens : Option ℕ+ := none
  maxToolCalls : Option ℕ+ := none
  toolSettings : Option (ToolSettings A) := none
  allowedTools : Option (List String) := none

/-- The catalog of a run: which tools are marked internal, and the arguments of a call without its
activity annotation. -/
structure Catalog (A : Type) where
  markedInternal : String → Bool
  businessArguments : ToolCall A → A

/-- `BaseAgentRuntimeLoopState` and the loop's own variables. -/
structure LoopState (A T : Type) where
  provider : WireFormat
  tools : Catalog A
  messages : List (Entry A T)
  callContexts : List (ToolCallContext A) := []
  iterationCount : Nat := 0
  tokensUsed : Option Nat := none
  rejections : Nat := 0
  fallbackIndex : Nat := 0

/-- The output contracts of an agent; `unmet` gives the feedback on those a final output leaves unmet. -/
structure OutputContract (A T W : Type) where
  unmet : Callback W (LoopState A T × String) (Option String)
  maxRejections : Nat

/-- What surrounds a run. The spend stop and the deadline are read off the world, the first as the
usage ledger it checks is part of it; `fallback` lists the chain's models, the primary first. -/
structure Surroundings (A T W : Type) where
  config : RuntimeConfig A
  middleware : Callback W (Hook A × LoopState A T) MiddlewareDecision
  reviewFinish : Callback W (LoopState A T) FinishReview
  sleep : Callback W Unit Unit
  invoke : Callback W (List (Entry A T)) (ModelReply A T)
  tool : Callback W (ToolCall A × LoopState A T) ToolReply
  modelVisible : Callback W (ToolCall A × ToolResult × Bool) ToolResult
  conversation : W → List (Message T) × List (Message T)
  contract : Option (OutputContract A T W)
  continueFinish : Callback W (LoopState A T) (Option (List (Message T)))
  afterToolIteration : Callback W (LoopState A T) (List (Message T))
  adoptCatalog : Callback W (Catalog A) (Catalog A)
  spendStop : W → Option String
  timedOut : W → Bool
  fallback : List WireFormat
  isModelError : Raised → Bool

/-! ### The state of a run -/

inductive AgentStopReason where
  | finalResponse | isDone | maxIterations | maxTokens | maxToolCalls | budget (reason : BudgetReason)
  | timeout | maxSpend | middlewareAbort | toolSettingsDenied | contractUnsatisfied
  deriving DecidableEq

structure AgentResult (A : Type) where
  output : String
  stopReason : AgentStopReason
  toolCalls : List (ToolCallContext A)

inductive LoopFailure where
  | raised (raised : Raised)
  | outOfFuel
  deriving DecidableEq

/-- A run: the world and the loop's state. The last three fields list the messages each model request was
given, the contexts each time the loop went on to a model request or a tool call, and the catalogs the
loop adopted. -/
structure LoopRun (A T W : Type) where
  world : W
  state : LoopState A T
  sent : List (List (Entry A T)) := []
  resumed : List (List (ToolCallContext A)) := []
  adopted : List (Catalog A) := []

abbrev LoopM (A T W α : Type) : Type := Prog (LoopRun A T W) LoopFailure α

/-! ### Internal tools -/

/-- `_tool_name_is_internal`. -/
def toolNameIsInternal {A : Type} (tools : Catalog A) (toolName : String) : Bool :=
  toolName = isDoneToolName || tools.markedInternal toolName

/-- `_non_internal_tool_contexts`. -/
def nonInternalToolContexts {A : Type} (tools : Catalog A) (contexts : List (ToolCallContext A)) :
    List (ToolCallContext A) :=
  contexts.filter fun context => !toolNameIsInternal tools context.toolName

/-- `Tools.prepare_call`. -/
def Catalog.prepareCall {A : Type} (tools : Catalog A) (call : ToolCall A) : ToolCall A :=
  { call with arguments := tools.businessArguments call }

/-- `_build_tool_call_context`. -/
def buildToolCallContext {A : Type} (call : ToolCall A) (state : ToolCallState)
    (result : ToolResult) (iterationCount : Nat) (toolIsInternal : Bool) : ToolCallContext A where
  toolName := call.toolName
  arguments := call.arguments
  state := state
  callId := call.callId
  result := result
  iterationCount := some iterationCount
  internal := toolIsInternal

namespace LoopM

variable {A T W α β : Type}

/-! ### Callbacks and state -/

def attempt (f : Callback W α β) (a : α) : LoopM A T W (Except Raised β) := do
  let run ← Prog.get
  Prog.modify fun run => { run with world := (f a run.world).2 }
  pure (f a run.world).1

def call (f : Callback W α β) (a : α) : LoopM A T W β := do
  match ← attempt f a with
  | .ok b => pure b
  | .error raised => Prog.throw (.raised raised)

def getState : LoopM A T W (LoopState A T) := do
  let run ← Prog.get
  pure run.state

def modifyState (change : LoopState A T → LoopState A T) : LoopM A T W Unit :=
  Prog.modify fun run => { run with state := change run.state }

def readWorld (f : W → α) : LoopM A T W α := do
  let run ← Prog.get
  pure (f run.world)

def appendMessages (entries : List (Entry A T)) : LoopM A T W Unit :=
  modifyState fun s => { s with messages := s.messages ++ entries }

def resume : LoopM A T W Unit :=
  Prog.modify fun run => { run with resumed := run.resumed ++ [run.state.callContexts] }

variable (env : Surroundings A T W)

def hook (h : Hook A) : LoopM A T W MiddlewareDecision := do
  let s ← getState
  call env.middleware (h, s)

/-! ### Stops -/

/-- `_stopped_result`, and `_final_result`, which differs in what it reports only. -/
def stoppedResult (output : String) (stopReason : AgentStopReason) : LoopM A T W (AgentResult A) := do
  let s ← getState
  pure ⟨output, stopReason, s.callContexts⟩

/-- `_middleware_abort_result`. -/
def middlewareAbortResult (decision : MiddlewareDecision) : LoopM A T W (AgentResult A) :=
  let reason := decision.reasonOr "middleware_abort"
  stoppedResult s!"Agent runtime stopped by middleware: {reason}" .middlewareAbort

/-- `_finish_result`: the after-run middleware may abort the result. -/
def finishResult (result : AgentResult A) : LoopM A T W (AgentResult A) := do
  let decision ← hook env .afterRun
  if decision.action = .abortRun then
    let reason := decision.reasonOr "middleware_abort"
    pure ⟨s!"Agent runtime stopped by middleware: {reason}", .middlewareAbort, result.toolCalls⟩
  else pure result

def optionStop : Option (String × AgentStopReason) → LoopM A T W (Option (AgentResult A))
  | none => pure none
  | some (output, stopReason) => some <$> stoppedResult output stopReason

/-- `_spend_cap_stop`. -/
def spendCapStop : LoopM A T W (Option (AgentResult A)) := do
  let output ← readWorld env.spendStop
  optionStop (output.map fun output => (output, .maxSpend))

end LoopM

def tokensReached (limit : Option ℕ+) (tokensUsed : Option Nat) : Bool :=
  match tokensUsed with
  | none => false
  | some tokens => reached limit tokens

/-- The countable budgets and the deadline of `_budget_stop`. -/
def limitStop {A T : Type} (config : RuntimeConfig A) (s : LoopState A T) (timedOut : Bool) :
    Option (String × AgentStopReason) :=
  if reached config.maxIterations s.iterationCount then
    some ("Agent runtime stopped after reaching max_iterations.", .maxIterations)
  else if tokensReached config.maxTokens s.tokensUsed then
    some ("Agent runtime stopped after reaching max_tokens.", .maxTokens)
  else if reached config.maxToolCalls (nonInternalToolContexts s.tools s.callContexts).length then
    some ("Agent runtime stopped after reaching max_tool_calls.", .maxToolCalls)
  else if timedOut then some ("Agent runtime stopped after reaching timeout_seconds.", .timeout)
  else none

/-- The lower of `max_tool_calls` and `ToolSettings.max_calls`. -/
def RuntimeConfig.callLimit {A : Type} (config : RuntimeConfig A) : Option ℕ+ :=
  match config.maxToolCalls, config.toolSettings.bind (·.maxCalls) with
  | some a, some b => some (min a b)
  | some a, none => some a
  | none, limit => limit

/-- `_tool_settings_budget_stop`. -/
def toolSettingsBudgetStop {A : Type} (config : RuntimeConfig A) (tools : Catalog A)
    (contexts : List (ToolCallContext A)) : Option (String × AgentStopReason) :=
  if reached config.callLimit (nonInternalToolContexts tools contexts).length then
    some ("Agent runtime stopped after reaching max_tool_calls.", .maxToolCalls)
  else none

/-- `_tool_settings_hard_budget_stop`. -/
def hardBudgetStop (reason : BudgetReason) : String × AgentStopReason :=
  ("Agent runtime stopped by tool settings budget: " ++ text, .budget reason)
where
  text : String :=
    match reason with
    | .maxCallsPerIteration => "max_calls_per_iteration"
    | .slidingWindowMaxCalls => "sliding_window_max_calls"
    | .maxIdenticalCalls => "max_identical_calls"
    | .maxConsecutiveFailures => "max_consecutive_failures"
    | .maxErrorCalls => "max_error_calls"

/-- `_allowed_tools_denial`. -/
def allowedToolsDenial {A : Type} (config : RuntimeConfig A) (toolName : String) :
    Option DenialReason :=
  match config.allowedTools with
  | none => none
  | some allowed => if toolName ∈ allowed then none else some .allowedToolsDenied

/-- What `_enforce_tool_settings` makes of a developer tool's call once the spend cap let it pass. -/
inductive Enforcement where
  | stop (stop : String × AgentStopReason)
  | deny (reason : DenialReason)
  | allow

/-- The budgets, gates and deny-class rules of `_enforce_tool_settings`, in its order. -/
def enforcement {A : Type} (config : RuntimeConfig A) (tools : Catalog A) (call : ToolCall A)
    (contexts : List (ToolCallContext A)) (iterationCount : Nat) : Enforcement :=
  match toolSettingsBudgetStop config tools contexts with
  | some stop => .stop stop
  | none =>
    match config.toolSettings.bind
        (·.budgetStop call.toolName call.arguments contexts iterationCount) with
    | some reason => .stop (hardBudgetStop reason)
    | none =>
      match allowedToolsDenial config call.toolName
          <|> config.toolSettings.bind (·.denial call.toolName (executedCount contexts)) with
      | some reason => .deny reason
      | none => .allow

/-- `_enforce_tool_settings_after_failure`: the error budgets after a failed developer tool. -/
def failureStop {A : Type} (config : RuntimeConfig A) (context : ToolCallContext A)
    (toolIsInternal : Bool) (contexts : List (ToolCallContext A)) : Option (String × AgentStopReason) :=
  if toolIsInternal ∨ context.state ≠ .failed then none
  else (config.toolSettings.bind (·.failureBudgetStop contexts)).map hardBudgetStop

namespace LoopM

variable {A T W : Type} (env : Surroundings A T W)

/-- `_budget_stop`. -/
def budgetStop : LoopM A T W (Option (AgentResult A)) := do
  match ← spendCapStop env with
  | some result => pure (some result)
  | none => do
    let s ← getState
    let timedOut ← readWorld env.timedOut
    optionStop (limitStop env.config s timedOut)

/-! ### Tool calls -/

/-- `_append_tool_result_message`: appends the visible form of a result. -/
def appendToolResultMessage (call : ToolCall A) (result : ToolResult) (truncate : Bool) :
    LoopM A T W Unit := do
  let visible ← LoopM.call env.modelVisible (call, result, truncate)
  let s ← getState
  appendMessages [⟨.result s.iterationCount call, formatToolResult call visible s.provider⟩]

/-- `_answer_skipped_tool_calls`. -/
def answerSkippedToolCalls (skipped : List (ToolCall A)) : LoopM A T W Unit :=
  forM skipped fun call => appendToolResultMessage env call (.error call.toolName
    "tool call not executed: the isDone finish attempt in this turn was turned down; call it again if it is still needed")
    true

def appendContext (context : ToolCallContext A) : LoopM A T W Unit :=
  modifyState fun s => { s with callContexts := s.callContexts ++ [context] }

/-- `_apply_tool_denial`: aborts the run or records an in-context denial. -/
def applyToolDenial (call : ToolCall A) (reason : DenialReason) :
    LoopM A T W (AgentResult A ⊕ ToolResult) := do
  let text := reason.value
  if env.config.toolSettings.any (·.abortsOnDeny) then
    .inl <$> stoppedResult s!"Agent runtime stopped by tool settings: {text}" .toolSettingsDenied
  else do
    let result := ToolResult.error call.toolName s!"Tool denied by tool settings: {text}"
    let s ← getState
    appendContext (buildToolCallContext call .denied result s.iterationCount false)
    appendToolResultMessage env call result false
    pure (.inr result)

/-- `_enforce_tool_settings`; `none` lets the call run. -/
def enforceToolSettings (call : ToolCall A) (toolIsInternal : Bool) :
    LoopM A T W (Option (AgentResult A ⊕ ToolResult)) := do
  match ← spendCapStop env with
  | some result => pure (some (.inl result))
  | none =>
    if toolIsInternal then pure none
    else do
      let s ← getState
      match enforcement env.config s.tools call s.callContexts s.iterationCount with
      | .stop stop => (some ∘ .inl) <$> stoppedResult stop.1 stop.2
      | .deny reason => some <$> applyToolDenial env call reason
      | .allow => pure none

/-- `execute_tool_call`: an `Exception` of the tool becomes an error result. -/
def executeToolCall (call : ToolCall A) : LoopM A T W (ToolCallState × ToolResult) := do
  let s ← getState
  match ← attempt env.tool (call, s) with
  | .ok (.returned result) =>
    pure (if result.status = .success then .succeeded else .failed, result)
  | .ok (.permissionDenied message) => pure (.denied, .error call.toolName message)
  | .error (.exception typeName) =>
    pure (.failed, .error call.toolName s!"Tool execution failed: {typeName}")
  | .error (.baseException typeName) => Prog.throw (.raised (.baseException typeName))

def attemptToolCall (call : ToolCall A) (decision : MiddlewareDecision) :
    LoopM A T W (ToolCallState × ToolResult) :=
  if decision.action = .denyTool then
    let reason := decision.reasonOr "middleware_denied"
    pure (.denied, .error call.toolName s!"Tool denied by middleware: {reason}")
  else executeToolCall env call

/-- The retry loop of `_process_tool_call`: only the last attempt escapes it. -/
def runToolAttempts (call : ToolCall A) (decision : MiddlewareDecision) :
    (fuel : Nat) → LoopM A T W (ToolCallState × ToolResult × MiddlewareDecision)
  | 0 => Prog.throw .outOfFuel
  | fuel + 1 => do
    let (state, result) ← attemptToolCall env call decision
    let afterDecision ← hook env (.afterToolCall call result)
    if afterDecision.action = .retry then do
      LoopM.call env.sleep ()
      runToolAttempts call decision fuel
    else pure (state, result, afterDecision)

def isFinish (call : ToolCall A) (result : ToolResult) : Bool :=
  call.toolName = isDoneToolName && result.status = .success

/-- The message of a call that ran or was denied: none where the run is aborted, and not yet where the
call finishes it. -/
def answerToolCall (call : ToolCall A) (state : ToolCallState) (result : ToolResult)
    (afterDecision : MiddlewareDecision) : LoopM A T W Unit :=
  if afterDecision.action = .abortRun ∨ isFinish call result then pure ()
  else appendToolResultMessage env call result (state ≠ .denied)

def recordToolCall (call : ToolCall A) (toolIsInternal : Bool) (state : ToolCallState)
    (result : ToolResult) (afterDecision : MiddlewareDecision) : LoopM A T W (ToolCallContext A) := do
  let s ← getState
  let context := buildToolCallContext call state result s.iterationCount toolIsInternal
  answerToolCall env call state result afterDecision
  appendContext context
  pure context

/-- The rest of `_process_tool_call` once the before-tool middleware has decided. -/
def settleToolCall (call : ToolCall A) (toolIsInternal : Bool) (decision : MiddlewareDecision)
    (fuel : Nat) : LoopM A T W (AgentResult A ⊕ ToolResult) := do
  let (state, result, afterDecision) ← runToolAttempts env call decision fuel
  let context ← recordToolCall env call toolIsInternal state result afterDecision
  if afterDecision.action = .abortRun then .inl <$> middlewareAbortResult afterDecision
  else do
    let s ← getState
    match failureStop env.config context toolIsInternal s.callContexts with
    | some stop => .inl <$> stoppedResult stop.1 stop.2
    | none => pure (.inr result)

/-- `_process_tool_call`: executes one tool call, records its context, and appends it to messages. -/
def processToolCall (fuel : Nat) (rawCall : ToolCall A) : LoopM A T W (AgentResult A ⊕ ToolResult) := do
  resume
  let s ← getState
  let call := s.tools.prepareCall rawCall
  let toolIsInternal := toolNameIsInternal s.tools call.toolName
  match ← enforceToolSettings env call toolIsInternal with
  | some outcome => pure outcome
  | none => do
    let decision ← hook env (.beforeToolCall call)
    if decision.action = .abortRun then .inl <$> middlewareAbortResult decision
    else settleToolCall env call toolIsInternal decision fuel

/-! ### Finish attempts -/

/-- What the output contracts say of a final output. -/
inductive Verdict where
  | met
  | unmet (feedback : String)
  | exhausted
  deriving DecidableEq

def contractVerdict (output : String) : LoopM A T W Verdict :=
  match env.contract with
  | none => pure .met
  | some contract => do
    let s ← getState
    match ← LoopM.call contract.unmet (s, output) with
    | none => pure .met
    | some feedback => pure (if contract.maxRejections ≤ s.rejections then .exhausted else .unmet feedback)

def reject : LoopM A T W Unit :=
  modifyState fun s => { s with rejections := s.rejections + 1 }

def afterIteration : LoopM A T W (Option (AgentResult A)) := do
  let decision ← hook env .afterIteration
  if decision.action = .continue then pure none
  else do
    let result ← middlewareAbortResult decision
    some <$> finishResult env result

/-- How the tool calls of a turn end: the run is over, a finish was turned down, or all were processed. -/
inductive TurnEnd (A : Type) where
  | finished (result : AgentResult A)
  | refused
  | worked

def finishWith (output : String) (stopReason : AgentStopReason) : LoopM A T W (AgentResult A) := do
  let result ← stoppedResult output stopReason
  finishResult env result

def continueFinishAttempt : LoopM A T W Bool := do
  let s ← getState
  match ← LoopM.call env.continueFinish s with
  | none => pure false
  | some messages => do
    appendMessages (messages.map fun message => ⟨.note, message⟩)
    pure true

/-- The contract rejection of an `isDone`. -/
def rejectFinish (call : ToolCall A) (rest : List (ToolCall A)) (feedback : String) :
    LoopM A T W (TurnEnd A) := do
  reject
  appendToolResultMessage env call (.error call.toolName feedback) true
  answerSkippedToolCalls env rest
  pure .refused

/-- The provisional refusal of an `isDone`, its review and its continuation. -/
def reviewFinishAttempt (call : ToolCall A) (result : ToolResult) (rest : List (ToolCall A)) :
    LoopM A T W (TurnEnd A) := do
  appendToolResultMessage env call
    (.error call.toolName "finish attempt not accepted yet; continue with the next message") true
  answerSkippedToolCalls env rest
  let s ← getState
  let review ← LoopM.call env.reviewFinish s
  match review.action with
  | .stop => .finished <$> finishWith env result.output .contractUnsatisfied
  | .continue => do
    appendMessages [.note "user" review.feedback]
    pure .refused
  | .accept => do
    match ← continueFinishAttempt env with
    | true => pure .refused
    | false => .finished <$> finishWith env result.output .isDone

/-- A successful `isDone`. -/
def finishToolCall (call : ToolCall A) (result : ToolResult) (rest : List (ToolCall A)) :
    LoopM A T W (TurnEnd A) := do
  match ← afterIteration env with
  | some stopped => pure (.finished stopped)
  | none => do
    match ← contractVerdict env result.output with
    | .exhausted => .finished <$> finishWith env result.output .contractUnsatisfied
    | .unmet feedback => rejectFinish env call rest feedback
    | .met => reviewFinishAttempt env call result rest

def processToolCalls (fuel : Nat) : List (ToolCall A) → LoopM A T W (TurnEnd A)
  | [] => pure .worked
  | call :: rest => do
    match ← processToolCall env fuel call with
    | .inl result => .finished <$> finishResult env result
    | .inr result =>
      if isFinish call result then finishToolCall env call result rest
      else processToolCalls fuel rest

/-- `_adopt_agent_catalog`. -/
def adoptAgentCatalog : LoopM A T W Unit := do
  let s ← getState
  let tools ← LoopM.call env.adoptCatalog s.tools
  Prog.modify fun run => { run with
    state := { run.state with tools := tools }
    adopted := run.adopted ++ [tools] }

/-- The end of a normal tool iteration; `none` goes on. -/
def finishToolIteration : LoopM A T W (Option (AgentResult A)) := do
  match ← afterIteration env with
  | some result => pure (some result)
  | none => do
    match ← spendCapStop env with
    | some result => some <$> finishResult env result
    | none => do
      let s ← getState
      let messages ← LoopM.call env.afterToolIteration s
      appendMessages (messages.map fun message => ⟨.note, message⟩)
      adoptAgentCatalog env
      pure none

def appendTurn (reply : ModelReply A T) (calls : List (ToolCall A)) : LoopM A T W Unit := do
  let s ← getState
  match reply.assistantTurn with
  | none => pure ()
  | some turn => appendMessages [⟨.turn s.iterationCount calls, .raw turn⟩]

/-- The tool-call section of the loop; `none` goes on to the next iteration. -/
def toolIteration (fuel : Nat) (reply : ModelReply A T) (calls : List (ToolCall A)) :
    LoopM A T W (Option (AgentResult A)) := do
  appendTurn reply calls
  match ← processToolCalls env fuel calls with
  | .finished result => pure (some result)
  | .refused => do
    adoptAgentCatalog env
    pure none
  | .worked => finishToolIteration env

/-! ### Replies without tool calls -/

def draftFeedback (text feedback : String) : List (Entry A T) :=
  (if isBlank text then [] else [.note "assistant" text]) ++ [.note "user" feedback]

def reviewFinalAnswer (text : String) : LoopM A T W (Option (AgentResult A)) := do
  let s ← getState
  let review ← LoopM.call env.reviewFinish s
  match review.action with
  | .stop => some <$> finishWith env text .contractUnsatisfied
  | .continue => do
    appendMessages (draftFeedback text review.feedback)
    afterIteration env
  | .accept => do
    match ← afterIteration env with
    | some result => pure (some result)
    | none => do
      match ← continueFinishAttempt env with
      | true => do
        appendMessages [.note "assistant" text]
        pure none
      | false => some <$> finishWith env text .finalResponse

/-- A plain final answer; `none` goes on to the next iteration. -/
def finalAnswer (text : String) : LoopM A T W (Option (AgentResult A)) := do
  match ← contractVerdict env text with
  | .exhausted => some <$> finishWith env text .contractUnsatisfied
  | .unmet feedback => do
    reject
    appendMessages (draftFeedback text feedback)
    afterIteration env
  | .met => reviewFinalAnswer env text

/-- The section of the loop for a reply without tool calls. -/
def answerIteration (text : String) : LoopM A T W (Option (AgentResult A)) := do
  match ← spendCapStop env with
  | some result => some <$> finishResult env result
  | none => do
    let s ← getState
    if tokensReached env.config.maxTokens s.tokensUsed then
      some <$> finishWith env "Agent runtime stopped after reaching max_tokens." .maxTokens
    else finalAnswer env text

/-! ### The model -/

/-- `_build_conversation_messages`: the placed messages around those of the run. -/
def buildConversationMessages : LoopM A T W (List (Entry A T)) := do
  let s ← getState
  let (top, last) ← readWorld env.conversation
  pure ((top.map fun message => ⟨.note, message⟩) ++ s.messages
    ++ last.map fun message => ⟨.note, message⟩)

/-- `AgentFallback.advance`: the next model of the chain. -/
def fallbackAdvance (raised : Raised) (index : Nat) : Option Nat :=
  if env.isModelError raised ∧ index + 1 < env.fallback.length then some (index + 1) else none

def request (conversation : List (Entry A T)) : LoopM A T W (Except Raised (ModelReply A T)) := do
  Prog.modify fun run => { run with sent := run.sent ++ [conversation] }
  resume
  attempt env.invoke conversation

/-- `_invoke_with_middleware`: the middleware may abort a request or retry it. -/
def invokeWithMiddleware (conversation : List (Entry A T)) :
    (fuel : Nat) → LoopM A T W (AgentResult A ⊕ ModelReply A T)
  | 0 => Prog.throw .outOfFuel
  | fuel + 1 => do
    let decision ← hook env .beforeModelCall
    if decision.action = .continue then do
      match ← request env conversation with
      | .ok reply => pure (.inr reply)
      | .error (.baseException typeName) => Prog.throw (.raised (.baseException typeName))
      | .error (.exception typeName) => do
        let decision ← hook env (.onModelError (.exception typeName))
        match decision.action with
        | .retry => do
          match ← spendCapStop env with
          | some result => pure (.inl result)
          | none => do
            LoopM.call env.sleep ()
            invokeWithMiddleware conversation fuel
        | .abortRun => do
          let s ← getState
          if (fallbackAdvance env (.exception typeName) s.fallbackIndex).isSome then
            Prog.throw (.raised (.exception typeName))
          else .inl <$> middlewareAbortResult decision
        | _ => Prog.throw (.raised (.exception typeName))
    else .inl <$> middlewareAbortResult decision

/-- `_fallback_transition`: the next model, with the messages where it speaks the same wire format. -/
def fallbackTransition : LoopFailure → LoopM A T W Unit
  | .outOfFuel => Prog.throw .outOfFuel
  | .raised raised => do
    let s ← getState
    match fallbackAdvance env raised s.fallbackIndex with
    | none =>
      Prog.throw (.raised
        (if env.isModelError raised ∧ s.fallbackIndex ≠ 0 then .exception "AllModelsFailedError"
          else raised))
    | some index =>
      let provider := env.fallback.getD index s.provider
      modifyState fun s => { s with
        provider := provider
        messages := if provider = s.provider then s.messages else []
        fallbackIndex := index }

/-- The request of one iteration; `none` is a switch to another model. -/
def requestIteration (fuel : Nat) : LoopM A T W (Option (AgentResult A ⊕ ModelReply A T)) := do
  let conversation ← buildConversationMessages env
  Prog.tryCatch (some <$> invokeWithMiddleware env conversation fuel) fun failure => do
    fallbackTransition env failure
    pure none

/-- `_add_token_usage`. -/
def addTokenUsage (current : Option Nat) : Option Nat → Option Nat
  | none => current
  | some delta => some (current.getD 0 + delta)

def countReply (reply : ModelReply A T) : LoopM A T W Unit :=
  modifyState fun s => { s with
    iterationCount := s.iterationCount + 1
    tokensUsed := addTokenUsage s.tokensUsed reply.tokens }

def handleReply (fuel : Nat) (reply : ModelReply A T) : LoopM A T W (Option (AgentResult A)) := do
  countReply reply
  let decision ← hook env .afterModelResponse
  if decision.action = .continue then
    match reply.toolCalls with
    | .error raised => Prog.throw (.raised raised)
    | .ok [] => answerIteration env reply.text
    | .ok calls => toolIteration env fuel reply calls
  else do
    let result ← middlewareAbortResult decision
    some <$> finishResult env result

/-- One pass of the loop; `none` goes on. -/
def iteration (fuel : Nat) : LoopM A T W (Option (AgentResult A)) := do
  match ← budgetStop env with
  | some result => some <$> finishResult env result
  | none => do
    let decision ← hook env .beforeIteration
    if decision.action = .continue then do
      match ← requestIteration env fuel with
      | none => pure none
      | some (.inl result) => some <$> finishResult env result
      | some (.inr reply) => handleReply env fuel reply
    else do
      let result ← middlewareAbortResult decision
      some <$> finishResult env result

def loop : (fuel : Nat) → LoopM A T W (AgentResult A)
  | 0 => Prog.throw .outOfFuel
  | fuel + 1 => do
    match ← iteration env fuel with
    | some result => pure result
    | none => loop fuel

/-- `_arun_once`: one direct model/tool attempt until a finish or a budget stop. -/
def arunOnce (fuel : Nat) : LoopM A T W (AgentResult A) := do
  let decision ← hook env .beforeRun
  if decision.action = .continue then loop env fuel
  else do
    let result ← middlewareAbortResult decision
    finishResult env result

end LoopM

/-! ### Runs -/

section

variable {A T W : Type} (env : Surroundings A T W) (fuel : Nat) (provider : WireFormat)
  (tools : Catalog A) (callerMessages : List T) (world : W)

def LoopRun.start : LoopRun A T W where
  world := world
  state :=
    { provider := provider, tools := tools
      messages := callerMessages.map fun message => ⟨.caller, .raw message⟩ }

def runOf : Outcome (LoopRun A T W) LoopFailure (AgentResult A) :=
  LoopM.arunOnce env fuel (LoopRun.start provider tools callerMessages world)

/-- The configurations of a run: those it passes through, and the one it ends in. -/
def configurations : List (LoopRun A T W) :=
  (runOf env fuel provider tools callerMessages world).visited ++
    [(runOf env fuel provider tools callerMessages world).final]

end

end VidbyteSdk.Agents.Loop
