import VidbyteSdk.Middleware.ToolErrorPolicy

/-!
# Loop detection

`LoopDetectionMiddleware` of `middleware/builtins/loop_detection.py`. A tool call is an object of its own:
`ref` is its identity, and its arguments are their JSON text. `hash` is the hexadecimal digest a key ends
in.
-/

namespace VidbyteSdk.Middleware

open VidbyteSdk.Lib

def REPEATED_OUTPUT_LOOP_NOTICE : String :=
  "Loop detection: this tool has returned the same output repeatedly, which " ++
  "usually means the current approach is not making progress. Stop repeating " ++
  "this action — re-examine the task, try a different tool or different " ++
  "arguments, or conclude the run if the task is already complete."

/-- The values of the metadata the detector writes, besides texts. -/
inductive LoopValue where
  | count (n : ℤ)
  | flag (value : Bool)
  deriving DecidableEq

structure CallObject where
  ref : Nat
  toolName : String
  arguments : String
  deriving DecidableEq

structure ToolOutput where
  toolName : String
  status : ToolStatus
  output : String
  metadata : Metadata LoopValue := []
  deriving DecidableEq

structure ToolHookContext where
  toolCall : Option CallObject
  toolResult : Option ToolOutput := none
  toolIsInternal : Bool := false
  deriving DecidableEq

/-- The settings of a detector, as its constructor admits them. -/
structure LoopDetection where
  maxRepeatedCalls : Nat := 3
  window : Nat := 10
  skipInternalTools : Bool := true
  softMaxRepeatedOutputs : Option Nat := none
  hardMaxRepeatedOutputs : Option Nat := none
  two_le : 2 ≤ maxRepeatedCalls := by decide
  le_window : maxRepeatedCalls ≤ window := by decide
  two_le_soft : ∀ soft ∈ softMaxRepeatedOutputs, 2 ≤ soft := by decide
  two_le_hard : ∀ hard ∈ hardMaxRepeatedOutputs, 2 ≤ hard := by decide
  soft_lt_hard : ∀ soft ∈ softMaxRepeatedOutputs, ∀ hard ∈ hardMaxRepeatedOutputs, soft < hard := by
    decide

/-- `_LoopDetectionRunState`: the history is bounded, and the oldest entry comes first. -/
structure LoopDetectionRunState where
  callHistory : List String := []
  outputCounts : List (String × ℤ) := []
  countedCall : Option (CallObject × String) := none
  deriving DecidableEq

/-- `output_counts.get(key, 0)`. -/
def LoopDetectionRunState.outputCount (state : LoopDetectionRunState) (key : String) : ℤ :=
  (state.outputCounts.lookup key).getD 0

/-- `output_counts[key] = count`. -/
def LoopDetectionRunState.setOutputCount (state : LoopDetectionRunState) (key : String) (count : ℤ) :
    LoopDetectionRunState :=
  { state with outputCounts := upsert Prod.fst (key, count) state.outputCounts }

/-- `deque.append` under a `maxlen`. -/
def appendBounded (window : Nat) (history : List String) (key : String) : List String :=
  (history ++ [key]).drop (history.length + 1 - window)

/-- `_count_consecutive_tail`. -/
def countConsecutiveTail (key : String) (history : List String) : Nat :=
  (history.reverse.takeWhile (· = key)).length

def outputHash (key : String) : String :=
  if ':' ∈ key.toList then String.ofList ((key.toList.dropWhile (· ≠ ':')).drop 1) else key

namespace LoopDetection

abbrev Decided : Type := MiddlewareDecision Unit ToolOutput LoopValue

variable (detector : LoopDetection) (hash : String → String)

/-- `_make_key`. -/
def makeKey (toolName arguments : String) : String := s!"{toolName}:{hash arguments}"

/-- `_make_output_key`. -/
def makeOutputKey (toolName output : String) : String := s!"{toolName}:{hash output}"

def skips (ctx : ToolHookContext) : Bool := detector.skipInternalTools && ctx.toolIsInternal

/-- `before_tool_call`. -/
def beforeToolCall (ctx : ToolHookContext) (state : LoopDetectionRunState) :
    Decided × LoopDetectionRunState :=
  match ctx.toolCall with
  | none => (.continueWith [] none, state)
  | some call =>
    if detector.skips ctx then (.continueWith [] none, state)
    else
      let key := makeKey hash call.toolName call.arguments
      let history := appendBounded detector.window state.callHistory key
      let state := { state with callHistory := history, countedCall := none }
      let consecutive := countConsecutiveTail key history
      if detector.maxRepeatedCalls ≤ consecutive then
        ({ action := .abortRun, reason := some "tool_loop_detected"
           metadata := [("tool_name", .text call.toolName),
             ("repeated_count", .other (.count consecutive)),
             ("max_repeated_calls", .other (.count detector.maxRepeatedCalls))] }, state)
      else (.continueWith [] none, state)

/-- The output of a hidden retry replaces the one counted before for the same call. -/
def uncount (call : Option CallObject) (state : LoopDetectionRunState) : LoopDetectionRunState :=
  match state.countedCall, call with
  | some (counted, key), some call =>
    if counted.ref = call.ref then state.setOutputCount key (state.outputCount key - 1) else state
  | _, _ => state

/-- The counting of `after_tool_call`: the count of the output, and the state. -/
def countOutput (call : Option CallObject) (key : String) (state : LoopDetectionRunState) :
    ℤ × LoopDetectionRunState :=
  let state := uncount call state
  let count := state.outputCount key + 1
  (count, { state.setOutputCount key count with countedCall := call.map fun call => (call, key) })

def repeatedMetadata (result : ToolOutput) (key : String) (count : ℤ) : Metadata LoopValue :=
  [("tool_name", .text result.toolName), ("output_hash", .text (outputHash key)),
    ("repeated_count", .other (.count count)), ("description", .text REPEATED_OUTPUT_LOOP_NOTICE)]

def noticedResult (result : ToolOutput) (count : ℤ) : ToolOutput :=
  { result with
    output := s!"{result.output}\n\n[{REPEATED_OUTPUT_LOOP_NOTICE} (observed {count} times)]"
    metadata := mergeMetadata result.metadata
      [("loop_detection_notice", .other (.flag true)), ("repeated_count", .other (.count count))] }

/-- The decision on an output that was counted `count` times; the hard threshold is checked first. -/
def decideOutput (result : ToolOutput) (key : String) (count : ℤ) : Decided :=
  match detector.hardMaxRepeatedOutputs.filter fun hard : Nat => (hard : ℤ) ≤ count with
  | some hard =>
    { action := .abortRun, reason := some "tool_output_loop_detected"
      metadata := repeatedMetadata result key count ++
        [("hard_max_repeated_outputs", .other (.count hard))] }
  | none =>
    match detector.softMaxRepeatedOutputs.filter fun soft : Nat => (soft : ℤ) ≤ count with
    | some soft =>
      .continueWith
        (repeatedMetadata result key count ++ [("soft_max_repeated_outputs", .other (.count soft))])
        (some { modelVisibleToolResult := some (noticedResult result count) })
    | none => .continueWith [] none

/-- `after_tool_call`. -/
def afterToolCall (ctx : ToolHookContext) (state : LoopDetectionRunState) :
    Decided × LoopDetectionRunState :=
  if detector.softMaxRepeatedOutputs.isNone ∧ detector.hardMaxRepeatedOutputs.isNone then
    (.continueWith [] none, state)
  else
    match ctx.toolResult with
    | none => (.continueWith [] none, state)
    | some result =>
      if detector.skips ctx then (.continueWith [] none, state)
      else
        let key := makeOutputKey hash result.toolName result.output
        let counted := countOutput ctx.toolCall key state
        (detector.decideOutput result key counted.1, counted.2)

end LoopDetection

/-! ### The hooks of a run -/

/-- A tool call of the model: whether the hook before it reaches the detector, and the results that the
hook after it sees, one for each time the runtime retried the call. -/
structure ModelCall where
  toolName : String
  arguments : String
  internal : Bool := false
  announced : Bool := true
  results : List ToolOutput
  deriving DecidableEq

inductive ToolHook where
  | before (ctx : ToolHookContext)
  | after (ctx : ToolHookContext)
  deriving DecidableEq

def ModelCall.object (call : ModelCall) (ref : Nat) : CallObject := ⟨ref, call.toolName, call.arguments⟩

def ModelCall.hooks (call : ModelCall) (ref : Nat) : List ToolHook :=
  (if call.announced then [.before { toolCall := call.object ref, toolIsInternal := call.internal }]
    else []) ++
  call.results.map fun result =>
    .after { toolCall := call.object ref, toolResult := result, toolIsInternal := call.internal }

/-- The hooks of calls made one after the other, from the object `ref` on. -/
def hooksFrom : (ref : Nat) → List ModelCall → List ToolHook
  | _, [] => []
  | ref, call :: calls => call.hooks ref ++ hooksFrom (ref + 1) calls

namespace LoopDetection

variable (detector : LoopDetection) (hash : String → String)

def runHook (state : LoopDetectionRunState) : ToolHook → Decided × LoopDetectionRunState
  | .before ctx => detector.beforeToolCall hash ctx state
  | .after ctx => detector.afterToolCall hash ctx state

def stateAfter (hooks : List ToolHook) : LoopDetectionRunState :=
  hooks.foldl (fun state hook => (detector.runHook hash state hook).2) {}

end LoopDetection

end VidbyteSdk.Middleware
