import VidbyteSdk.Lib.Dicts

/-!
# Messages under compaction

`ContextMessage`, and how `ContextCompactionEngine` of `middleware/compaction/engine.py` makes one of a provider
message and writes it back: the kind, the text, the id, the tool name and the error status that it reads, and the
content that it replaces.
-/

namespace VidbyteSdk.Middleware.Compaction

open VidbyteSdk.Lib
open Json (lit firstTruthy)

/-- What the language does with values: the `repr` of a string, and `dict(value)` of a value that is no mapping, where
that raises nothing. -/
structure Builtins where
  reprText : Text → Text
  dictOfPairs : Json → Option (List (Text × Json))

structure ContextMessage where
  role : Text
  content : Text
  kind : Text := lit "message"
  metadata : Json := .obj []

namespace ContextMessage

def isToolCall (message : ContextMessage) : Bool := message.kind = lit "tool_call"

def isToolResult (message : ContextMessage) : Bool := message.kind = lit "tool_result"

def isSystem (message : ContextMessage) : Bool := message.role = lit "system"

def original (message : ContextMessage) : Option Json :=
  (message.metadata.get? (lit "provider_message")).filter Json.isMapping

/-- `_replace_message_content`. -/
def replaceContent (message : ContextMessage) (content : Text) (metadata : List (Text × Json)) : ContextMessage :=
  { message with
    content := content
    metadata := metadata.foldl (fun value entry => value.set entry.1 entry.2) message.metadata }

end ContextMessage

variable (B : Builtins)

def Builtins.str (value : Json) : Text := Json.strOf B.reprText value

/-- `dict(value)`; none where it raises. -/
def Builtins.dict (value : Json) : Option (List (Text × Json)) :=
  match value with
  | .obj members => some members
  | other => B.dictOfPairs other

/-- A value that is there and not `None`. -/
def given (value : Option Json) : Option Json :=
  value.filter fun value => match value with
    | .null => false
    | _ => true

/-- `block.get("type") == name` of a mapping. -/
def hasType (name : Text) (block : Json) : Bool :=
  match block.get? (lit "type") with
  | some (.str text) => text = name
  | _ => false

def listOf (value : Option Json) : List Json := (value.bind Json.items?).getD []

/-! ### What is read -/

def isFunctionCallPart (part : Json) : Bool := part.has (lit "functionCall") || part.has (lit "function_call")

/-- `_provider_message_kind`. -/
def providerMessageKind (message : Json) : Text :=
  let content := listOf (message.get? (lit "content"))
  let parts := listOf (message.get? (lit "parts"))
  if (match message.get? (lit "role") with
      | some (.str role) => role = lit "tool"
      | _ => false) || message.has (lit "tool_call_id") then lit "tool_result"
  else if message.has (lit "tool_calls") then lit "tool_call"
  else if content.any (hasType (lit "tool_result")) then lit "tool_result"
  else if parts.any fun part => part.has (lit "functionResponse") then lit "tool_result"
  else if content.any (hasType (lit "tool_use")) then lit "tool_call"
  else if parts.any isFunctionCallPart then lit "tool_call"
  else lit "message"

def itemText (item : Json) : Text :=
  B.str (((given (item.get? (lit "content"))).or (given (item.get? (lit "text")))).getD item)

def partText (part : Json) : Text :=
  let functionResponse := firstTruthy [part.get? (lit "functionResponse"), part.get? (lit "function_response")]
  let response := functionResponse.bind fun value => value.get? (lit "response")
  let output := response.bind fun value => (value.get? (lit "output")).or (value.get? (lit "message"))
  match output with
  | some (.str text) => text
  | _ =>
    match part.get? (lit "text") with
    | some (.str text) => text
    | _ => B.str part

/-- `_provider_message_content`. -/
def providerMessageContent (message : Json) : Text :=
  match message.get? (lit "content") with
  | some (.str text) => text
  | some (.arr items) => joinLines (items.map (itemText B))
  | content =>
    match message.get? (lit "parts") with
    | some (.arr parts) => joinLines (parts.map (partText B))
    | _ => B.str ((firstTruthy [content]).getD message)

/-- `_provider_message_id`. -/
def providerMessageId (message : Json) (index : ℕ) : Text :=
  match [lit "id", lit "message_id", lit "call_id", lit "tool_call_id"].findSome? fun key =>
      given (message.get? key) with
  | some value => B.str value
  | none => Json.intText index

/-- `_provider_tool_name`. -/
def providerToolName (message : Json) : Option Text :=
  let direct := (given (message.get? (lit "name"))).or (given (message.get? (lit "tool_name")))
  (direct.or ((listOf (message.get? (lit "tool_calls"))).findSome? fun call =>
    (given ((call.get? (lit "function")).bind fun function => function.get? (lit "name"))).or
      (given (call.get? (lit "name"))))).map B.str

/-- `_tool_use_names`: every `tool_use` id with its tool's name, later ones first. -/
def toolUseNames (messages : List Json) : List (Text × Text) :=
  ((messages.flatMap fun message => listOf (message.get? (lit "content"))).filterMap fun block =>
    if hasType (lit "tool_use") block then
      (given (block.get? (lit "id"))).bind fun id =>
        (given (block.get? (lit "name"))).map fun name => (B.str id, B.str name)
    else none).reverse

/-- `_provider_block_tool_name`. -/
def providerBlockToolName (message : Json) (toolNames : List (Text × Text)) : Option Text :=
  ((listOf (message.get? (lit "content"))).findSome? fun block =>
    match (given (block.get? (lit "name"))).filter fun _ => hasType (lit "tool_use") block with
    | some name => some (B.str name)
    | none =>
      if hasType (lit "tool_result") block then
        toolNames.lookup (B.str ((block.get? (lit "tool_use_id")).getD .null))
      else none).or
  ((listOf (message.get? (lit "parts"))).findSome? fun part =>
    [lit "functionCall", lit "function_call", lit "functionResponse", lit "function_response"].findSome? fun key =>
      ((part.get? key).bind fun value => given (value.get? (lit "name"))).map B.str)

/-- `part.get("functionResponse", part.get("function_response"))`. -/
def responseOf (part : Json) : Option Json :=
  (part.get? (lit "functionResponse")).or (part.get? (lit "function_response"))

/-- The `status` of a Gemini response. -/
def responseStatus (response : Json) : Option Json :=
  (response.get? (lit "response")).bind fun value => value.get? (lit "status")

/-- `content.startswith("[tool_error ")` of a string. -/
def isErrorText (content : Option Json) : Bool :=
  match content with
  | some (.str text) => decide (lit "[tool_error " <+: text)
  | _ => false

/-- `_provider_tool_error`. -/
def providerToolError (message : Json) : Bool :=
  ((listOf (message.get? (lit "content"))).any fun block => hasType (lit "tool_result") block &&
    match block.get? (lit "is_error") with
    | some (.bool value) => value
    | _ => false) ||
  ((listOf (message.get? (lit "parts"))).any fun part =>
    match (responseOf part).bind responseStatus with
    | some (.str status) => status = lit "error"
    | _ => false) ||
  isErrorText (message.get? (lit "content"))

/-- `_provider_to_context_message`. -/
def providerToContextMessage (toolNames : List (Text × Text)) (message : Json) (index : ℕ) : ContextMessage :=
  let kind := providerMessageKind message
  let toolName := (providerToolName B message).or (providerBlockToolName B message toolNames)
  { role := B.str ((message.get? (lit "role")).getD (.str (lit "assistant")))
    content := providerMessageContent B message
    kind := kind
    metadata := .obj ([(lit "provider_message", message), (lit "provider_index", .int index),
      (lit "provider_id", .str (providerMessageId B message index)), (lit "tool_name", toolName.elim .null .str)] ++
      if kind = lit "tool_result" ∧ providerToolError message = true then [(lit "status", .str (lit "error"))]
      else []) }

/-! ### What is written back -/

/-- The items with `content` in the first `tool_result` block; none where there is no such block. -/
def setFirstResult (content : Text) : List Json → Option (List Json)
  | [] => none
  | item :: items =>
    if hasType (lit "tool_result") item then some (item.set (lit "content") (.str content) :: items)
    else (setFirstResult content items).map fun rest => item :: rest

def isStructured (item : Json) : Bool :=
  !hasType (lit "text") item && match item with
    | .str _ => false
    | _ => true

/-- A content list without results, once its text is `content`. -/
def setTextBlocks (content : Text) (items : List Json) : Json :=
  let others := items.filter isStructured
  if others.isEmpty then .str content
  else .arr ((if content.isEmpty then []
    else [.obj [(lit "type", .str (lit "text")), (lit "text", .str content)]]) ++ others)

/-- The members of a response with `content` under `output`, or under `message` where an error keeps its text. -/
def setResponseText (content : Text) (response : List (Text × Json)) : List (Text × Json) :=
  let key := if (response.lookup (lit "output")).isSome || (response.lookup (lit "message")).isNone then lit "output"
    else lit "message"
  upsert Prod.fst (key, .str content) response

/-- A part whose `functionResponse` is a mapping is replaced; none where its response is not one and cannot be made
one. -/
def setPart (content : Text) (part : Json) : Option Json :=
  match part.get? (lit "functionResponse") with
  | some (.obj functionResponse) =>
    (B.dict ((functionResponse.lookup (lit "response")).getD (.obj []))).map fun response =>
      .obj [(lit "functionResponse",
        .obj (upsert Prod.fst (lit "response", .obj (setResponseText content response)) functionResponse))]
  | _ => some part

/-- `_replace_provider_content`; none where it raises. -/
def replaceProviderContent (message : Json) (content : Text) : Option Json :=
  match message.get? (lit "content") with
  | some (.str _) => some (message.set (lit "content") (.str content))
  | some (.arr items) =>
    match setFirstResult content items with
    | some items => some (message.set (lit "content") (.arr items))
    | none => some (message.set (lit "content") (setTextBlocks content items))
  | _ =>
    match message.get? (lit "parts") with
    | some (.arr parts) => (parts.mapM (setPart B content)).map fun parts => message.set (lit "parts") (.arr parts)
    | _ => some (message.set (lit "content") (.str content))

/-- `_context_message_to_provider`; none where it raises. -/
def contextMessageToProvider (message : ContextMessage) : Option Json :=
  match message.original with
  | some original =>
    -- a message that was not rewritten goes back as it came
    if message.content = providerMessageContent B original then some original
    else replaceProviderContent B original message.content
  | none =>
    let role := if message.role ∈ [lit "system", lit "user"] then message.role else lit "assistant"
    some (.obj [(lit "role", .str role), (lit "content", .str message.content)])

/-- Strings without escapes, and no mapping made of pairs. -/
def plainBuiltins : Builtins where
  reprText text := Json.quote :: text ++ [Json.quote]
  dictOfPairs _ := none

end VidbyteSdk.Middleware.Compaction
