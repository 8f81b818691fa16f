import VidbyteSdk.Lib.Merging

/-!
# Provider requests from a history

How the adapters place the prompt in a conversation history and build the message list of a request:
`PromptPlacement` of `lib/util/prompt_placement.py`, `_create_input` and `_responses_items` of
`providers/openai.py`, `_create_messages` of `providers/anthropic.py` and `providers/compatible.py`, and
`_create_contents` of `providers/gemini.py`. A message is a dictionary with some of the keys that they read.
-/

namespace VidbyteSdk.Providers

open VidbyteSdk.Lib

inductive Role where
  | user | assistant | system | model | tool
  | other (name : String)
  deriving DecidableEq

/-- An entry of `tool_calls`. -/
structure FunctionCall where
  id : Option String
  name : Option String
  arguments : Option String
  deriving DecidableEq

inductive Block where
  | text (text : String)
  | toolUse (id name input : String)
  | toolResult (toolUseId content : String) (isError : Bool)
  | other (type : String)
  deriving DecidableEq

inductive Content where
  | text (text : String)
  | blocks (blocks : List Block)
  | null
  deriving DecidableEq

/-- `bool(content)`. -/
def Content.isTruthy : Content → Bool
  | .text content => content ≠ ""
  | .blocks content => content ≠ []
  | .null => false

/-- A part of a Gemini turn; a function call comes as `functionCall` or as `function_call`. -/
inductive Part where
  | text (text : String)
  | functionCall (camelCase : Bool) (name args : String)
  | functionResponse (name response : String)
  | other (kind : String)
  deriving DecidableEq

structure Message where
  type : Option String := none
  role : Option Role := none
  content : Option Content := none
  parts : Option (List Part) := none
  toolCalls : Option (List FunctionCall) := none
  toolCallId : Option String := none
  name : Option String := none
  deriving DecidableEq

/-! ### What the formatter builds -/

/-- `_format_openai_tool_result`. -/
def formatOpenaiToolResult (toolName callId content : String) : Message :=
  { role := some .tool, toolCallId := some callId, name := some toolName, content := some (.text content) }

/-- `_format_anthropic_tool_result`. -/
def formatAnthropicToolResult (callId content : String) (isError : Bool) : Message :=
  { role := some .user, content := some (.blocks [.toolResult callId content isError]) }

/-- `_format_gemini_tool_result`. -/
def formatGeminiToolResult (toolName response : String) : Message :=
  { role := some .user, parts := some [.functionResponse toolName response] }

/-! ### Where the prompt goes -/

def promptTurn (prompt : String) : Message := { role := some .user, content := some (.text prompt) }

/-- The place of the first turn that `opens` after the turn before it. -/
def firstTurn (opens : Option Message → Message → Bool) : Option Message → List Message → ℕ
  | _, [] => 0
  | previous, turn :: turns => if opens previous turn then 0 else firstTurn opens (some turn) turns + 1

namespace PromptPlacement

/-- `PromptPlacement.index`: the boundary the runtime gives, or the first call turn that nothing
introduces. -/
def index (turns : List Message) (isCallTurn : Message → Bool) (boundary : Option ℕ) : ℕ :=
  match boundary.filter fun b : ℕ => b ≤ turns.length with
  | some b => b
  | none =>
    firstTurn (fun previous turn => isCallTurn turn && previous.all (·.role = some .assistant)) none turns

def isChatCallTurn (turn : Message) : Bool :=
  turn.type = some "function_call" || (turn.role = some .assistant && (turn.toolCalls.getD []) ≠ [])

end PromptPlacement

/-- `history.insert(place, turn)`. -/
def insertTurn (turns : List Message) (place : ℕ) (turn : Message) : List Message :=
  turns.take place ++ turn :: turns.drop place

/-! ### OpenAI Responses -/

inductive ResponsesItem where
  | message (message : Message)
  | functionCall (callId name : Option String) (arguments : String)
  | functionCallOutput (callId : Option String) (output : Option Content)
  deriving DecidableEq

def FunctionCall.argumentsText (call : FunctionCall) : String :=
  match call.arguments with
  | some arguments => if arguments = "" then "\x7b\x7d" else arguments
  | none => "\x7b\x7d"

/-- `_responses_items`. -/
def responsesItems (message : Message) : List ResponsesItem :=
  if message.type.isSome then [.message message]
  else if message.role = some .tool then [.functionCallOutput message.toolCallId message.content]
  else
    match message.toolCalls with
    | some calls =>
      if message.role ≠ some .assistant then [.message message]
      else
        (if message.content.any Content.isTruthy then
          [.message { role := some .assistant, content := message.content }] else []) ++
        calls.map fun call => .functionCall call.id call.name call.argumentsText
    | none => [.message message]

inductive ResponsesInput where
  | text (prompt : String)
  | items (items : List ResponsesItem)
  deriving DecidableEq

/-- `OpenAIProvider._create_input`. -/
def createInput (messages : List Message) (promptIndex : Option ℕ) (prompt : String) : ResponsesInput :=
  if messages = [] then .text prompt
  else
    .items ((insertTurn messages
      (PromptPlacement.index messages PromptPlacement.isChatCallTurn promptIndex)
      (promptTurn prompt)).flatMap responsesItems)

/-! ### Compatible chat completions -/

def systemTurns (instructions : Option String) : List Message :=
  ((instructions.filter (· ≠ "")).map fun text =>
    ({ role := some .system, content := some (.text text) } : Message)).toList

/-- `_create_messages` of the compatible providers. -/
def createChatMessages (messages : List Message) (promptIndex : Option ℕ) (prompt : String)
    (instructions : Option String) : List Message :=
  systemTurns instructions ++
    insertTurn messages (PromptPlacement.index messages PromptPlacement.isChatCallTurn promptIndex)
      (promptTurn prompt)

/-! ### Anthropic -/

def Block.isToolUse : Block → Bool
  | .toolUse .. => true
  | _ => false

def Content.blockList : Content → List Block
  | .blocks content => content
  | _ => []

/-- `_is_tool_use_turn`. -/
def isToolUseTurn (turn : Message) : Bool :=
  turn.role = some .assistant && (turn.content.elim [] Content.blockList).any Block.isToolUse

def anthropicTurn (message : Message) : Message :=
  if message.role = some .system then { message with role := some .user } else message

/-- `AnthropicProvider._create_messages`. -/
def createMessages (messages : List Message) (promptIndex : Option ℕ) (prompt : String) : List Message :=
  let history := messages.map anthropicTurn
  insertTurn history (PromptPlacement.index history isToolUseTurn promptIndex) (promptTurn prompt)

/-! ### Gemini -/

namespace Gemini

/-- `turn.get("parts") or ()`. -/
def partsOf (turn : Message) : List Part := turn.parts.getD []

/-- Gemini has no system turns, and calls the assistant `model`. -/
def geminiRole : Option Role → Option Role
  | some .assistant => some .model
  | some .system => some .user
  | role => role

/-- `_gemini_turn`; `str` shows a content that is no text. -/
def geminiTurn (str : Content → String) (message : Message) : Message :=
  let role := geminiRole message.role
  match message.parts, message.content with
  | none, some (.text text) => { message with role := role, content := none, parts := some [.text text] }
  | none, some content => { message with role := role, content := none, parts := some [.text (str content)] }
  | _, _ => { message with role := role }

/-- `_has_part(turn, "functionCall")`. -/
def hasFunctionCall (turn : Message) : Bool :=
  (partsOf turn).any fun part =>
    match part with
    | .functionCall camelCase _ _ => camelCase
    | _ => false

def opensExchange (previous : Option Message) (turn : Message) : Bool :=
  (hasFunctionCall turn || (previous.isNone && turn.role = some .model)) &&
    !previous.any (·.role = some .user)

/-- `_prompt_index`. -/
def promptIndex (history : List Message) (boundary : Option ℕ) : ℕ :=
  match boundary.filter fun b : ℕ => b ≤ history.length ∧ ¬history.head?.any (·.role = some .model) with
  | some b => b
  | none => firstTurn opensExchange none history

def joinsModel (last turn : Message) : Bool := turn.role = some .model && last.role = some .model

def joinParts (last turn : Message) : Message := { last with parts := some (partsOf last ++ partsOf turn) }

/-- `_merge_model_turns`. -/
def mergeModelTurns (history : List Message) : List Message := mergeAdjacent joinsModel joinParts history

def Part.isFunctionResponse : Part → Bool
  | .functionResponse .. => true
  | _ => false

/-- `_is_function_response_turn`. -/
def isFunctionResponseTurn (turn : Message) : Bool :=
  turn.role = some .user && partsOf turn ≠ [] && (partsOf turn).all Part.isFunctionResponse

/-- `_merge_function_responses`. -/
def mergeFunctionResponses (history : List Message) : List Message :=
  mergeAdjacent (fun last turn => isFunctionResponseTurn turn && isFunctionResponseTurn last) joinParts history

def promptContent (prompt : String) : Message := { role := some .user, parts := some [.text prompt] }

/-- `_create_contents`. -/
def createContents (str : Content → String) (messages : List Message) (boundary : Option ℕ)
    (prompt : String) : List Message :=
  let history := messages.map (geminiTurn str)
  mergeFunctionResponses (mergeModelTurns
    (insertTurn history (promptIndex history boundary) (promptContent prompt)))

end Gemini

end VidbyteSdk.Providers
