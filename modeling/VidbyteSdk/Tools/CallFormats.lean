import Mathlib.Data.List.Infix
import VidbyteSdk.Lib.Dicts

/-!
# Provider-native tool calls

`ToolsFormatter` of `lib/tools/formatter.py`, as far as one tool exchange goes: the calls that `parse_tool_calls` reads
from a response, the assistant turn that `format_assistant_tool_calls` echoes, and the messages of
`format_tool_result`.
-/

namespace VidbyteSdk.Tools.Formatter

open VidbyteSdk.Lib
open Json (lit strip firstTruthy)

/-- What the language does with texts: the `repr` of a string, and `str.lower`. -/
structure Strings where
  reprText : Text → Text
  lower : Text → Text

inductive Failure where
  | valueError (message : String)
  | decodeError
  -- a list or a mapping is looked up in a set
  | unhashable
  deriving DecidableEq

inductive Family where
  | openai | anthropic | gemini | xai
  deriving DecidableEq

structure ToolCall where
  toolName : Text
  arguments : List (Text × Json)
  callId : Option Text
  metadata : List (Text × Json) := []
  named : Text.isBlank toolName = false

/-- `ToolCall(...)` with its check of the name. -/
def ToolCall.create (toolName : Text) (arguments : List (Text × Json)) (callId : Option Text)
    (metadata : List (Text × Json) := []) : Except Failure ToolCall :=
  if h : Text.isBlank toolName = false then .ok ⟨toolName, arguments, callId, metadata, h⟩
  else .error (.valueError "ToolCall.tool_name cannot be empty")

inductive ToolStatus where
  | success | error
  deriving DecidableEq, Inhabited

structure ToolResult where
  status : ToolStatus
  output : Text
  metadata : List (Text × Json) := []
  deriving Inhabited

variable (S : Strings)

/-- `str(value)`. -/
def Strings.str (value : Json) : Text := Json.strOf S.reprText value

/-- `_PROVIDER_FAMILY_HINTS`. -/
def PROVIDER_FAMILY_HINTS : List (List Text × Family) :=
  [([lit "openrouter"], .openai), ([lit "anthropic", lit "claude"], .anthropic),
    ([lit "gemini", lit "google"], .gemini), ([lit "grok", lit "xai"], .xai)]

/-- `provider_from_model`. -/
def providerFromModel (providerOrModel : Option Text) : Family :=
  match providerOrModel with
  | none => .openai
  | some name =>
    if name.isEmpty then .openai
    else
      let value := S.lower name
      ((PROVIDER_FAMILY_HINTS.find? fun hint => hint.1.any fun token => decide (token <:+: value)).map Prod.snd).getD
        .openai

/-! ### Parsing -/

/-- `str(a or b or "") or None`. -/
def idOf (values : List (Option Json)) : Option Text :=
  let text := match firstTruthy values with
    | some value => S.str value
    | none => []
  if text.isEmpty then none else some text

/-- `str(value.get("name", ""))`. -/
def nameOf (value : Json) : Text := S.str ((value.get? (lit "name")).getD (.str []))

/-- `_parse_arguments(value.get("arguments", {}))`. -/
def parseArguments (rawArguments : Option Json) : Except Failure (List (Text × Json)) :=
  match rawArguments.getD (.obj []) with
  | .null => .ok []
  | .obj members => .ok members
  | .str text =>
    if Text.isBlank text then .ok []
    else
      match Json.loads text with
      | none => .error .decodeError
      | some .null => .ok []
      | some (.obj members) => .ok members
      | some _ => .error (.valueError "Tool call arguments must decode to an object")
  | _ => .error (.valueError "Tool call arguments must decode to an object")

/-- `value.get(key, {})`, for which null stands for no arguments, else it has to be a mapping. -/
def objectArguments (message : String) (value : Option Json) : Except Failure (List (Text × Json)) :=
  match value.getD (.obj []) with
  | .null => .ok []
  | .obj members => .ok members
  | _ => .error (.valueError message)

/-- `parse_openai_tool_call`. -/
def parseOpenaiToolCall (rawCall : Json) : Except Failure ToolCall :=
  let function := (rawCall.get? (lit "function")).getD rawCall
  if function.isMapping then do
    let arguments ← parseArguments (function.get? (lit "arguments"))
    ToolCall.create (nameOf S function) arguments (idOf S [rawCall.get? (lit "id"), rawCall.get? (lit "call_id")])
  else .error (.valueError "OpenAI tool call must include a function object")

/-- `parse_anthropic_tool_call`. -/
def parseAnthropicToolCall (rawCall : Json) : Except Failure ToolCall := do
  let rawInput ← objectArguments "Anthropic tool input must be an object" (rawCall.get? (lit "input"))
  ToolCall.create (nameOf S rawCall) rawInput (idOf S [rawCall.get? (lit "id")])

/-- `raw_call.get("functionCall") or raw_call.get("function_call") or raw_call`. -/
def functionCallOf (rawCall : Json) : Json :=
  (firstTruthy [rawCall.get? (lit "functionCall"), rawCall.get? (lit "function_call")]).getD rawCall

/-- `parse_gemini_tool_call`. -/
def parseGeminiToolCall (rawCall : Json) : Except Failure ToolCall :=
  let functionCall := functionCallOf rawCall
  if functionCall.isMapping then do
    let args ← objectArguments "Gemini function call args must be an object" (functionCall.get? (lit "args"))
    ToolCall.create (nameOf S functionCall) args (idOf S [functionCall.get? (lit "id"), rawCall.get? (lit "id")])
  else .error (.valueError "Gemini tool call must include a function call object")

def parseResponsesItem (item : Json) : Except Failure ToolCall := do
  let arguments ← parseArguments (item.get? (lit "arguments"))
  ToolCall.create (nameOf S item) arguments (idOf S [item.get? (lit "call_id"), item.get? (lit "id")])
    [(lit "provider_shape", .str (lit "openai_responses"))]

/-- `item.get("type") in {"function_call", "tool_call"}`. -/
def isCallItem (item : Json) : Except Failure Bool :=
  match item.get? (lit "type") with
  | some (.arr _) => .error .unhashable
  | some (.obj _) => .error .unhashable
  | some (.str text) => .ok (text = lit "function_call" || text = lit "tool_call")
  | _ => .ok false

/-- The calls of some raw ones, up to the first that raises. -/
def parseEach (parse : Json → Except Failure ToolCall) : List Json → Except Failure (List ToolCall)
  | [] => .ok []
  | raw :: raws => do
    let call ← parse raw
    let calls ← parseEach parse raws
    return call :: calls

def parseOutput : List Json → Except Failure (List ToolCall)
  | [] => .ok []
  | item :: items => do
    if ← isCallItem item then
      let call ← parseResponsesItem S item
      let calls ← parseOutput items
      return call :: calls
    else parseOutput items

def listAt (value : Option Json) (key : Text) : List Json :=
  ((value.bind fun value => value.get? key).bind Json.items?).getD []

def choiceCalls (choice : Json) : List Json := listAt (choice.get? (lit "message")) (lit "tool_calls")

/-- `_parse_openai_tool_calls`. -/
def parseOpenaiToolCalls (rawPayload : Json) : Except Failure (List ToolCall) := do
  let fromOutput ← parseOutput S (listAt (some rawPayload) (lit "output"))
  let rawCalls := (listAt (some rawPayload) (lit "choices")).flatMap fun choice =>
    (choiceCalls choice).filter Json.isMapping
  let fromChoices ← parseEach (parseOpenaiToolCall S) rawCalls
  return (fromOutput ++ fromChoices).filter fun call => !call.toolName.isEmpty

/-- The type of a block is `name`. -/
def hasType (name : Text) (block : Json) : Bool :=
  match block.get? (lit "type") with
  | some (.str text) => text = name
  | _ => false

def isToolUse (item : Json) : Bool := hasType (lit "tool_use") item

/-- `_parse_anthropic_tool_calls`. -/
def parseAnthropicToolCalls (rawPayload : Json) : Except Failure (List ToolCall) := do
  let calls ← parseEach (parseAnthropicToolCall S) ((listAt (some rawPayload) (lit "content")).filter isToolUse)
  return calls.filter fun call => !call.toolName.isEmpty

def isFunctionCall (part : Json) : Bool := part.has (lit "functionCall") || part.has (lit "function_call")

def candidateParts (candidate : Json) : List Json := listAt (candidate.get? (lit "content")) (lit "parts")

/-- `_parse_gemini_tool_calls`. -/
def parseGeminiToolCalls (rawPayload : Json) : Except Failure (List ToolCall) := do
  let parts := (listAt (some rawPayload) (lit "candidates")).flatMap fun candidate =>
    (candidateParts candidate).filter isFunctionCall
  let calls ← parseEach (parseGeminiToolCall S) parts
  return calls.filter fun call => !call.toolName.isEmpty

/-- `parse_tool_calls`, of a payload and the family of its provider. -/
def parseToolCalls (rawPayload : Json) (provider : Family) : Except Failure (List ToolCall) :=
  if rawPayload.isMapping then
    match provider with
    | .anthropic => parseAnthropicToolCalls S rawPayload
    | .gemini => parseGeminiToolCalls S rawPayload
    | _ => parseOpenaiToolCalls S rawPayload
  else .ok []

/-! ### The echoed turn -/

/-- `_echoed_chat_tool_call`. -/
def echoedChatToolCall (rawCall : Json) : Json :=
  if !rawCall.isMapping || ((rawCall.get? (lit "id")).any Json.truthy) then rawCall
  else
    let function := (rawCall.get? (lit "function")).getD rawCall
    let name := if function.isMapping then (function.get? (lit "name")).getD (.str []) else .str []
    rawCall.set (lit "id") (.str (S.str ((firstTruthy [rawCall.get? (lit "call_id")]).getD name)))

/-- `_arguments_json`. -/
def argumentsJson (arguments : Option Json) : Text :=
  match arguments.getD .null with
  | .str text => text
  | .null => Json.dumps true (.obj [])
  | value => Json.dumps true value

/-- The id of an item of a Responses output: `call_id`, else `id`, else the name. -/
def responsesId (item : Json) : Text :=
  S.str ((firstTruthy [item.get? (lit "call_id"), item.get? (lit "id")]).getD
    ((item.get? (lit "name")).getD (.str [])))

def responsesToolCall (item : Json) : Json :=
  .obj [(lit "id", .str (responsesId S item)), (lit "type", .str (lit "function")),
    (lit "function", .obj [(lit "name", .str (nameOf S item)),
      (lit "arguments", .str (argumentsJson (item.get? (lit "arguments"))))])]

def responsesToolCalls : List Json → Except Failure (List Json)
  | [] => .ok []
  | item :: items => do
    let isCall ← isCallItem item
    let calls ← responsesToolCalls items
    return if isCall && (item.get? (lit "name")).any Json.truthy then responsesToolCall S item :: calls else calls

def responsesTexts (items : List Json) : List Text :=
  ((items.filter (hasType (lit "message"))).flatMap fun item =>
    (listAt (some item) (lit "content")).filter (hasType (lit "output_text"))).map fun part =>
      S.str ((part.get? (lit "text")).getD (.str []))

/-- `_assistant_turn_openai_responses`. -/
def assistantTurnOpenaiResponses (output : List Json) : Except Failure (Option Json) := do
  let toolCalls ← responsesToolCalls S output
  if toolCalls.isEmpty then return none
  let text := (responsesTexts S output).flatten
  return some (.obj [(lit "role", .str (lit "assistant")),
    (lit "content", if text.isEmpty then .null else .str text), (lit "tool_calls", .arr toolCalls)])

/-- `_assistant_turn_openai`. -/
def assistantTurnOpenai (rawPayload : Json) : Except Failure (Option Json) :=
  match (rawPayload.get? (lit "output")).bind Json.items? with
  | some output => assistantTurnOpenaiResponses S output
  | none =>
    match (listAt (some rawPayload) (lit "choices")).head?.bind fun choice => choice.get? (lit "message") with
    | none => .ok none
    | some message =>
      .ok (((message.get? (lit "tool_calls")).bind Json.items?).map fun calls =>
        message.set (lit "tool_calls") (.arr (calls.map (echoedChatToolCall S))))

/-- `_assistant_turn_anthropic`. -/
def assistantTurnAnthropic (rawPayload : Json) : Option Json :=
  let content := listAt (some rawPayload) (lit "content")
  if content.any isToolUse then some (.obj [(lit "role", .str (lit "assistant")), (lit "content", .arr content)])
  else none

/-- `_assistant_turn_gemini`. -/
def assistantTurnGemini (rawPayload : Json) : Option Json :=
  match (listAt (some rawPayload) (lit "candidates")).head?.bind fun candidate => candidate.get? (lit "content") with
  | none => none
  | some content => if (listAt (some content) (lit "parts")).any isFunctionCall then some content else none

/-- `format_assistant_tool_calls`, of a payload and the family of its provider. -/
def formatAssistantToolCalls (rawPayload : Json) (provider : Family) : Except Failure (Option Json) :=
  if rawPayload.isMapping then
    match provider with
    | .anthropic => .ok (assistantTurnAnthropic rawPayload)
    | .gemini => .ok (assistantTurnGemini rawPayload)
    | _ => assistantTurnOpenai S rawPayload
  else .ok none

/-! ### The messages of results -/

/-- What `_error_parts` extracts. -/
structure ErrorParts where
  kind : Text
  message : Text
  hint : Option Text
  retryable : Option Bool
  detail : Option Text

/-- The aliases of `_normalized_error_kind`. -/
def KIND_ALIASES : List (Text × Text) :=
  [(lit "validation", lit "invalid_arguments"), (lit "validation_error", lit "invalid_arguments"),
    (lit "argument_error", lit "invalid_arguments"), (lit "arguments_error", lit "invalid_arguments")]

/-- `_normalized_error_kind`. -/
def normalizedErrorKind (rawKind : Option Json) : Text :=
  let raw := S.lower (strip (S.str (rawKind.getD (.str (lit "execution_error")))))
  (KIND_ALIASES.lookup raw).getD (if raw.isEmpty then lit "execution_error" else raw)

/-- `_normalized_retryable`. -/
def normalizedRetryable (rawRetryable : Option Json) : Option Bool :=
  match rawRetryable with
  | some (.bool value) => some value
  | some (.str text) =>
    let lowered := S.lower (strip text)
    if lowered ∈ [lit "true", lit "1", lit "yes"] then some true
    else if lowered ∈ [lit "false", lit "0", lit "no"] then some false
    else none
  | _ => none

/-- `_clean_text`. -/
def cleanText (value : Option Json) : Option Text :=
  match value.getD .null with
  | .null => none
  | value =>
    let text := strip (S.str value)
    if text.isEmpty then none else some (text.take 1000)

/-- `_model_visible_error_message`. -/
def modelVisibleErrorMessage (output : Text) (metadata : Json) : Text :=
  let cleaned := strip output
  if cleaned.isEmpty then (cleanText S (metadata.get? (lit "safe_message"))).getD (lit "Tool failed.") else cleaned

/-- `_detail_text`. -/
def detailText (metadata : Json) : Option Text :=
  cleanText S ((firstTruthy [metadata.get? (lit "detail"), metadata.get? (lit "exception")]).or
    (metadata.get? (lit "traceback")))

/-- `_error_parts`. -/
def errorParts (result : ToolResult) : ErrorParts :=
  let metadata := Json.obj result.metadata
  { kind := normalizedErrorKind S (firstTruthy [metadata.get? (lit "error"), metadata.get? (lit "error_type")])
    message := modelVisibleErrorMessage S result.output metadata
    hint := cleanText S (metadata.get? (lit "hint"))
    retryable := normalizedRetryable S (metadata.get? (lit "retryable"))
    detail := detailText S metadata }

/-- `_error_envelope_header`. -/
def errorEnvelopeHeader (parts : ErrorParts) : Text :=
  let retryable := match parts.retryable with
    | some true => lit " retryable=true"
    | some false => lit " retryable=false"
    | none => []
  lit "[tool_error kind=" ++ parts.kind ++ retryable ++ lit "]"

/-- `_render_error_envelope`. -/
def renderErrorEnvelope (result : ToolResult) : Text :=
  let parts := errorParts S result
  let hint := parts.hint.elim [] fun hint => newline :: lit "Hint: " ++ hint
  let detail := parts.detail.elim [] fun detail => newline :: lit "Detail: " ++ detail
  errorEnvelopeHeader parts ++ newline :: parts.message ++ hint ++ detail

/-- `_gemini_error_response`. -/
def geminiErrorResponse (parts : ErrorParts) : Json :=
  .obj ([(lit "error", .str parts.kind), (lit "message", .str parts.message), (lit "status", .str (lit "error"))] ++
    (parts.hint.map fun hint => (lit "hint", Json.str hint)).toList ++
    (parts.detail.map fun detail => (lit "detail", Json.str detail)).toList ++
    (parts.retryable.map fun value => (lit "retryable", Json.bool value)).toList)

/-- `_format_anthropic_tool_result`. -/
def formatAnthropicToolResult (callId content : Text) (isError : Bool := false) : Json :=
  .obj [(lit "role", .str (lit "user")), (lit "content", .arr [.obj
    ([(lit "type", .str (lit "tool_result")), (lit "tool_use_id", .str callId), (lit "content", .str content)] ++
      if isError then [(lit "is_error", .bool true)] else [])])]

/-- `_format_gemini_tool_result`. -/
def formatGeminiToolResult (toolName : Text) (response : Json) : Json :=
  .obj [(lit "role", .str (lit "user")), (lit "parts", .arr [.obj [(lit "functionResponse",
    .obj [(lit "name", .str toolName), (lit "response", response)])]])]

/-- `_format_openai_tool_result`. -/
def formatOpenaiToolResult (call : ToolCall) (callId content : Text) : Json :=
  .obj [(lit "role", .str (lit "tool")), (lit "tool_call_id", .str callId), (lit "name", .str call.toolName),
    (lit "content", .str content)]

/-- `_format_tool_success_result`. -/
def formatToolSuccessResult (call : ToolCall) (result : ToolResult) (provider : Family) (callId : Text) : Json :=
  match provider with
  | .anthropic => formatAnthropicToolResult callId result.output
  | .gemini => formatGeminiToolResult call.toolName
      (.obj [(lit "output", .str result.output), (lit "status", .str (lit "success"))])
  | _ => formatOpenaiToolResult call callId result.output

/-- `_format_tool_error_result`. -/
def formatToolErrorResult (call : ToolCall) (result : ToolResult) (provider : Family) (callId : Text) : Json :=
  match provider with
  | .anthropic => formatAnthropicToolResult callId (renderErrorEnvelope S result) true
  | .gemini => formatGeminiToolResult call.toolName (geminiErrorResponse (errorParts S result))
  | _ => formatOpenaiToolResult call callId (renderErrorEnvelope S result)

/-- `format_tool_result`, for the family of the provider. -/
def formatToolResult (call : ToolCall) (result : ToolResult) (provider : Family) : Json :=
  let callId := (call.callId.filter fun callId => !callId.isEmpty).getD call.toolName
  match result.status with
  | .error => formatToolErrorResult S call result provider callId
  | .success => formatToolSuccessResult call result provider callId

end VidbyteSdk.Tools.Formatter
