import VidbyteSdk.Lib.Values
import VidbyteSdk.Sessions.Portable
import VidbyteSdk.Util.CredentialKeys

/-!
# The session codec

`SessionSerializer` of `sessions/serialization.py`, over full checkpoint, run-state and message
records. A record's free-form fields are dynamic values. Reading a payload checks the types of its
plain fields: where a payload holds a value of another type, the source would build a record that its
dataclasses do not describe, and the reader here raises.
-/

namespace VidbyteSdk.Sessions

open VidbyteSdk.Lib VidbyteSdk.Util

/-! ### Records -/

/-- The fields of a run state that the sessions only pass through. -/
structure RunStateFields where
  schemaVersion : Int
  systemPrompt : String
  description : String
  capabilities : List String
  provider : Option String
  modelName : Option String
  /-- A number or `None`. -/
  temperature : Value
  runtimeType : String
  runtimeConfig : Mapping
  algorithm : String
  metadata : Mapping
  agentMetadata : Mapping
  toolNames : List String
  runId : Option String := none
  loopSettings : Mapping := []
  aggregatePlan : Mapping := []
  contextSummary : Mapping := []
  traceOption : Mapping := []
  /-- A mapping or `None`. -/
  outputSchema : Value := .null
  permissionPolicy : Option (List String) := none
  systemPromptPresets : Option (List String) := none

/-- `RunState`, with every field. -/
structure RunStateRecord extends RunStateFields where
  agentName : String
  history : List Mapping

/-- `Checkpoint`, with its full run state. -/
structure CheckpointRecord where
  id : String
  sessionId : String
  parentId : Option String
  seq : Int
  createdAt : String
  runState : RunStateRecord
  label : String := ""
  status : SessionStatus := .active
  traceArtifact : Value := .null
  traceSummary : Value := .null
  traceEvents : Option (List Value) := none

/-- `AgentMessage`, with its free-form values. -/
structure MessageRecord where
  sender : String
  recipient : String
  content : String
  messageType : String := "response"
  metadata : Mapping := []
  structured : Value := .null
  codex : Value := .null

/-! ### Secret keys -/

def SECRET_TOKENS : List String := ["API_KEY", "TOKEN", "SECRET", "PASSWORD", "CREDENTIAL", "AUTH"]
def TRACE_WHITELIST : List String := ["trace", "trace_metadata"]
def USAGE_WHITELIST : List String := ["tokens_used", "tool_call_count"]
def SETTINGS_WHITELIST : List String :=
  ["max_tokens", "compaction_trigger_tokens", "compaction_target_tokens", "cost_per_million_tokens"]

/-- What the standard library gives the codec: case mapping, and `int`, `none` where that raises. -/
structure Runtime extends Casing where
  int : Value → Option Int
  int_int : ∀ n, int (.int n) = some n

/-- `_is_secret_key`. -/
def isSecretKey (casing : Casing) (key : String) : Bool :=
  let upper := casing.upper key.toList
  if (TRACE_WHITELIST ++ USAGE_WHITELIST ++ SETTINGS_WHITELIST).any
      fun token => casing.upper token.toList = upper then false
  else SECRET_TOKENS.any fun token => decide (token.toList <:+: upper)

/-! ### Writing -/

def key (name : String) : Key := ⟨name, true⟩

/-- The filter of `_safe`. -/
def keyFilter (rt : Runtime) (scrubKeys preciseKeys : Bool) : Value.Filter where
  drops k := scrubKeys &&
    (if preciseKeys then CredentialKeyPolicy.isSecretKey rt.toCasing k else isSecretKey rt.toCasing k)
  mark typeName := .mapping [(key "__dropped__", .str typeName)]

namespace SessionSerializer

variable (rt : Runtime)

/-- `_safe`. -/
def safe (value : Value) (scrubKeys : Bool := true) (preciseKeys : Bool := false) : Value :=
  value.project (keyFilter rt scrubKeys preciseKeys)

/-- `_scrub_metadata`: its loop drops the keys `_safe` drops of a mapping. -/
def scrubMetadata : Mapping → Mapping → Mapping
  | scrubbed, [] => scrubbed
  | scrubbed, (k, v) :: metadata =>
    if isSecretKey rt.toCasing k.text then scrubMetadata scrubbed metadata
    else scrubMetadata (upsert Prod.fst (key k.text, safe rt v) scrubbed) metadata

def orNull {α : Type} (f : α → Value) : Option α → Value
  | none => .null
  | some a => f a

def texts (items : List String) : Value := .list (items.map .str)

/-- `_run_state_to_dict`. -/
def runStateToDict (state : RunStateRecord) : Value :=
  .mapping
    [(key "schema_version", .int state.schemaVersion),
      (key "agent_name", .str state.agentName),
      (key "system_prompt", .str state.systemPrompt),
      (key "description", .str state.description),
      (key "capabilities", texts state.capabilities),
      (key "provider", orNull .str state.provider),
      (key "model_name", orNull .str state.modelName),
      (key "temperature", state.temperature),
      (key "runtime_type", .str state.runtimeType),
      (key "runtime_config", safe rt (.mapping state.runtimeConfig)),
      (key "algorithm", .str state.algorithm),
      (key "metadata", .mapping (scrubMetadata rt [] state.metadata)),
      (key "agent_metadata", .mapping state.agentMetadata),
      (key "tool_names", texts state.toolNames),
      (key "history", .list (state.history.map .mapping)),
      (key "run_id", orNull .str state.runId),
      (key "loop_settings", safe rt (.mapping state.loopSettings) false),
      (key "aggregate_plan", safe rt (.mapping state.aggregatePlan)),
      (key "context_summary", safe rt (.mapping state.contextSummary)),
      (key "trace_option", safe rt (.mapping state.traceOption) false),
      (key "output_schema", safe rt state.outputSchema false),
      (key "permission_policy", orNull texts state.permissionPolicy),
      (key "system_prompt_presets", orNull texts state.systemPromptPresets)]

/-- `checkpoint_to_dict`. -/
def checkpointToDict (c : CheckpointRecord) : Value :=
  .mapping
    [(key "schema_version", .int SESSION_SCHEMA_VERSION),
      (key "checkpoint", .mapping
        [(key "id", .str c.id),
          (key "session_id", .str c.sessionId),
          (key "parent_id", orNull .str c.parentId),
          (key "seq", .int c.seq),
          (key "created_at", .str c.createdAt),
          (key "label", .str c.label),
          (key "status", .str c.status.value),
          (key "run_state", runStateToDict rt c.runState),
          (key "trace_artifact", safe rt c.traceArtifact true true),
          (key "trace_summary", safe rt c.traceSummary),
          (key "trace_events", orNull (fun events => safe rt (.list events)) c.traceEvents)])]

/-- `meta_to_dict`. -/
def metaToDict (m : SessionMeta) : Value :=
  .mapping
    [(key "schema_version", .int SESSION_SCHEMA_VERSION),
      (key "session_id", .str m.sessionId),
      (key "head_id", orNull .str m.headId),
      (key "parent_session_id", orNull .str m.parentSessionId),
      (key "agent_name", .str m.agentName),
      (key "status", .str m.status.value),
      (key "created_at", .str m.createdAt),
      (key "updated_at", .str m.updatedAt),
      (key "tags", texts m.tags)]

/-- `message_to_dict`. -/
def messageToDict (message : MessageRecord) : Value :=
  .mapping
    [(key "sender", .str message.sender),
      (key "recipient", .str message.recipient),
      (key "content", .str message.content),
      (key "message_type", .str message.messageType),
      (key "metadata", .mapping (scrubMetadata rt [] message.metadata)),
      (key "structured", safe rt message.structured false)]

/-! ### Reading -/

/-- `bool(value)` -/
def truthy : Value → Bool
  | .null => false
  | .bool b => b
  | .int n => n ≠ 0
  | .float r => r ≠ "0.0" && r ≠ "-0.0"
  | .str s => s ≠ ""
  | .list items => !items.isEmpty
  | .tuple items => !items.isEmpty
  | .mapping entries => !entries.isEmpty
  | .model _ | .object _ => true

/-- `data.get(field)` of a mapping. -/
def getField (data : Value) (field : String) : Except SessionException (Option Value) :=
  match data with
  | .mapping entries => .ok ((entries.find? fun e => e.1 = key field).map Prod.snd)
  | _ => .error (.other "AttributeError: no attribute 'get'")

/-- `_require_field`. -/
def requireField (data : Value) (field : String) : Except SessionException Value := do
  match ← getField data field with
  | none => throw (.serialization s!"Session payload missing required field: {field}.")
  | some value => pure value

/-- `int(value)` -/
def readInt (value : Value) : Except SessionException Int :=
  match rt.int value with
  | none => .error (.other "TypeError or ValueError: int()")
  | some n => .ok n

/-- `_require_version`. -/
def requireVersion (data : Value) : Except SessionException Unit := do
  match (← getField data "schema_version").getD .null with
  | .null => throw (.serialization "Session payload missing schema_version.")
  | version =>
    let found ← readInt rt version
    if found = SESSION_SCHEMA_VERSION then pure ()
    else throw (.version s!"Unsupported session schema version: {found}.")

def undeclared : SessionException := .other "a value of another type than the record declares"

def asText : Value → Except SessionException String
  | .str s => .ok s
  | _ => .error undeclared

def asOptionalText : Value → Except SessionException (Option String)
  | .null => .ok none
  | value => do
    let s ← asText value
    pure (some s)

/-- `tuple(value)` -/
def asTuple : Value → Except SessionException (List Value)
  | .list items => .ok items
  | .tuple items => .ok items
  | .str s => .ok (s.toList.map fun c => .str (String.singleton c))
  | .mapping entries =>
    .ok (entries.map fun e => if e.1.isStr then .str e.1.text else .object e.1.text)
  | _ => .error (.other "TypeError: not iterable")

/-- `dict(value)`, of a mapping. -/
def asDict : Value → Except SessionException Mapping
  | .mapping entries => .ok entries
  | _ => .error undeclared

/-- `value or default`, for a default that is empty. -/
def orEmpty {α : Type} (read : Value → Except SessionException (List α)) (value : Value) :
    Except SessionException (List α) :=
  if truthy value then read value else .ok []

def asTexts (value : Value) : Except SessionException (List String) := do
  let items ← asTuple value
  items.mapM asText

/-- `tuple(dict(item) for item in value)` -/
def asDicts (value : Value) : Except SessionException (List Mapping) := do
  let items ← asTuple value
  items.mapM asDict

/-- `None if value is None else tuple(value)` -/
def asOptionalTexts : Value → Except SessionException (Option (List String))
  | .null => .ok none
  | value => do
    let items ← asTexts value
    pure (some items)

/-- `SessionStatus(value)` -/
def asStatus (value : Value) : Except SessionException SessionStatus := do
  let s ← asText value
  match [SessionStatus.active, .completed, .interrupted, .failed].find? (·.value = s) with
  | none => throw (.other "ValueError: not a valid SessionStatus")
  | some status => pure status

/-- `data.get(field, default)` -/
def getFieldD (data : Value) (field : String) (default : Value) : Except SessionException Value := do
  let value ← getField data field
  pure (value.getD default)

/-- `_run_state_from_dict`. -/
def runStateFromDict (data : Value) : Except SessionException RunStateRecord := do
  let schemaVersion ← getFieldD data "schema_version" (.int SESSION_SCHEMA_VERSION) >>= readInt rt
  let agentName ← getFieldD data "agent_name" (.str "") >>= asText
  let systemPrompt ← getFieldD data "system_prompt" (.str "") >>= asText
  let description ← getFieldD data "description" (.str "") >>= asText
  let capabilities ← getFieldD data "capabilities" (.tuple []) >>= orEmpty asTexts
  let provider ← getFieldD data "provider" .null >>= asOptionalText
  let modelName ← getFieldD data "model_name" .null >>= asOptionalText
  let temperature ← getFieldD data "temperature" .null
  let runtimeType ← getFieldD data "runtime_type" (.str "linear") >>= asText
  let runtimeConfig ← getFieldD data "runtime_config" (.mapping []) >>= orEmpty asDict
  let algorithm ← getFieldD data "algorithm" (.str "default") >>= asText
  let metadata ← getFieldD data "metadata" (.mapping []) >>= orEmpty asDict
  let agentMetadata ← getFieldD data "agent_metadata" (.mapping []) >>= orEmpty asDict
  let toolNames ← getFieldD data "tool_names" (.tuple []) >>= orEmpty asTexts
  let history ← getFieldD data "history" (.tuple []) >>= orEmpty asDicts
  let runId ← getFieldD data "run_id" .null >>= asOptionalText
  let loopSettings ← getFieldD data "loop_settings" (.mapping []) >>= orEmpty asDict
  let aggregatePlan ← getFieldD data "aggregate_plan" (.mapping []) >>= orEmpty asDict
  let contextSummary ← getFieldD data "context_summary" (.mapping []) >>= orEmpty asDict
  let traceOption ← getFieldD data "trace_option" (.mapping []) >>= orEmpty asDict
  let outputSchema ← getFieldD data "output_schema" .null
  let permissionPolicy ← getFieldD data "permission_policy" .null >>= asOptionalTexts
  let systemPromptPresets ← getFieldD data "system_prompt_presets" .null >>= asOptionalTexts
  pure
    { schemaVersion, agentName, systemPrompt, description, capabilities, provider, modelName
      temperature, runtimeType, runtimeConfig, algorithm, metadata, agentMetadata, toolNames
      history, runId, loopSettings, aggregatePlan, contextSummary, traceOption, outputSchema
      permissionPolicy, systemPromptPresets }

/-- `tuple(events) if isinstance(events, list) else None` -/
def eventsOf : Value → Option (List Value)
  | .list items => some items
  | _ => none

/-- `checkpoint_from_dict`. -/
def checkpointFromDict (data : Value) : Except SessionException CheckpointRecord := do
  requireVersion rt data
  let body ← requireField data "checkpoint"
  let events ← getFieldD body "trace_events" .null
  let id ← requireField body "id" >>= asText
  let sessionId ← requireField body "session_id" >>= asText
  let parentId ← getFieldD body "parent_id" .null >>= asOptionalText
  let seq ← requireField body "seq" >>= readInt rt
  let createdAt ← requireField body "created_at" >>= asText
  let runState ← requireField body "run_state" >>= runStateFromDict rt
  let label ← getFieldD body "label" (.str "") >>= asText
  let status ← getFieldD body "status" (.str SessionStatus.active.value) >>= asStatus
  let traceArtifact ← getFieldD body "trace_artifact" .null
  let traceSummary ← getFieldD body "trace_summary" .null
  pure
    { id, sessionId, parentId, seq, createdAt, runState, label, status, traceArtifact
      traceSummary, traceEvents := eventsOf events }

/-- `meta_from_dict`. -/
def metaFromDict (data : Value) : Except SessionException SessionMeta := do
  requireVersion rt data
  let sessionId ← requireField data "session_id" >>= asText
  let headId ← getFieldD data "head_id" .null >>= asOptionalText
  let parentSessionId ← getFieldD data "parent_session_id" .null >>= asOptionalText
  let agentName ← getFieldD data "agent_name" (.str "") >>= asText
  let status ← getFieldD data "status" (.str SessionStatus.active.value) >>= asStatus
  let createdAt ← getFieldD data "created_at" (.str "") >>= asText
  let updatedAt ← getFieldD data "updated_at" (.str "") >>= asText
  let tags ← getFieldD data "tags" (.tuple []) >>= orEmpty asTexts
  pure
    { sessionId, headId, parentSessionId, agentName, status, createdAt, updatedAt, tags }

/-- `message_from_dict`. -/
def messageFromDict (data : Value) : Except SessionException MessageRecord := do
  let sender ← getFieldD data "sender" (.str "") >>= asText
  let recipient ← getFieldD data "recipient" (.str "") >>= asText
  let content ← getFieldD data "content" (.str "") >>= asText
  let messageType ← getFieldD data "message_type" (.str "response") >>= asText
  let metadata ← getFieldD data "metadata" (.mapping []) >>= orEmpty asDict
  let structured ← getFieldD data "structured" .null
  pure { sender, recipient, content, messageType, metadata, structured }

end SessionSerializer

end VidbyteSdk.Sessions
