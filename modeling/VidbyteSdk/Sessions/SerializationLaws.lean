import VidbyteSdk.Sessions.Serialization

/-!
# What the codec gives back

A record that is written and read comes back in stored form: its scrubbed and coerced fields replaced by
their plain data, everything else as it was. Writing a record and writing its stored form give one
payload, and a record in stored form comes back itself.
-/

namespace VidbyteSdk.Sessions

open VidbyteSdk.Lib VidbyteSdk.Util SessionSerializer

variable {rt : Runtime}

/-! ### The filters -/

theorem isSecretKey_dropped (casing : Casing) : isSecretKey casing "__dropped__" = false := by
  have hupper : casing.upper "__dropped__".toList = "__DROPPED__".toList := by
    rw [casing.upper_ascii _ CredentialKeyPolicy.ascii_dropped]
    decide
  have htokens : (SECRET_TOKENS.any fun token =>
      decide (token.toList <:+: "__DROPPED__".toList)) = false := by decide +kernel
  simp only [isSecretKey, hupper, htokens, ite_self]

theorem marks_keyFilter (scrubKeys preciseKeys : Bool) :
    (keyFilter rt scrubKeys preciseKeys).Marks := by
  intro typeName
  refine .mapping (List.nodup_singleton _) (fun e he => ?_) fun e he => ?_
  all_goals obtain rfl := List.mem_singleton.mp he
  · refine ⟨rfl, ?_⟩
    cases scrubKeys <;> cases preciseKeys <;>
      simp [keyFilter, key, isSecretKey_dropped, CredentialKeyPolicy.isSecretKey_dropped]
  · exact .scalar trivial

def plainMapping (rt : Runtime) (scrubKeys : Bool) (entries : Mapping) : Mapping :=
  Value.projectMapping (keyFilter rt scrubKeys false) entries

theorem safe_mapping (scrubKeys : Bool) (entries : Mapping) :
    safe rt (.mapping entries) scrubKeys = .mapping (plainMapping rt scrubKeys entries) :=
  Value.project_mapping entries

theorem safe_list (scrubKeys preciseKeys : Bool) (items : List Value) :
    safe rt (.list items) scrubKeys preciseKeys
      = .list (items.map fun v => safe rt v scrubKeys preciseKeys) := by
  rw [safe, Value.project, Value.projectItems_eq]
  rfl

@[simp] theorem safe_safe (scrubKeys preciseKeys : Bool) (v : Value) :
    safe rt (safe rt v scrubKeys preciseKeys) scrubKeys preciseKeys
      = safe rt v scrubKeys preciseKeys :=
  Value.project_project (marks_keyFilter _ _) v

@[simp] theorem plainMapping_plainMapping (scrubKeys : Bool) (entries : Mapping) :
    plainMapping rt scrubKeys (plainMapping rt scrubKeys entries)
      = plainMapping rt scrubKeys entries := by
  have h : safe rt (safe rt (.mapping entries) scrubKeys) scrubKeys
      = safe rt (.mapping entries) scrubKeys := safe_safe scrubKeys false _
  rwa [safe_mapping, safe_mapping, Value.mapping.injEq] at h

theorem scrubMetadata_eq (scrubbed metadata : Mapping) :
    scrubMetadata rt scrubbed metadata
      = (Value.projectEntries (keyFilter rt true false) metadata).foldl
          (fun rows e => upsert Prod.fst e rows) scrubbed := by
  induction metadata generalizing scrubbed with
  | nil => rfl
  | cons e metadata ih =>
    obtain ⟨k, v⟩ := e
    have hdrops : (keyFilter rt true false).drops k.text = isSecretKey rt.toCasing k.text := by
      simp [keyFilter]
    rw [scrubMetadata, Value.projectEntries, hdrops]
    split
    · exact ih scrubbed
    · exact ih _

@[simp] theorem scrubMetadata_nil (metadata : Mapping) :
    scrubMetadata rt [] metadata = plainMapping rt true metadata :=
  scrubMetadata_eq [] metadata

/-! ### Stored form -/

def RunStateRecord.stored (rt : Runtime) (state : RunStateRecord) : RunStateRecord :=
  { state with
    runtimeConfig := plainMapping rt true state.runtimeConfig
    metadata := plainMapping rt true state.metadata
    loopSettings := plainMapping rt false state.loopSettings
    aggregatePlan := plainMapping rt true state.aggregatePlan
    contextSummary := plainMapping rt true state.contextSummary
    traceOption := plainMapping rt false state.traceOption
    outputSchema := safe rt state.outputSchema false }

def CheckpointRecord.stored (rt : Runtime) (c : CheckpointRecord) : CheckpointRecord :=
  { c with
    runState := c.runState.stored rt
    traceArtifact := safe rt c.traceArtifact true true
    traceSummary := safe rt c.traceSummary
    traceEvents := c.traceEvents.map fun events => events.map fun v => safe rt v }

def MessageRecord.stored (rt : Runtime) (message : MessageRecord) : MessageRecord :=
  { message with
    metadata := plainMapping rt true message.metadata
    structured := safe rt message.structured false
    codex := .null }

/-- A run state as a store holds it: its free-form fields are plain data without secret keys. -/
structure RunStateRecord.IsStored (rt : Runtime) (state : RunStateRecord) : Prop where
  runtimeConfig : (Value.mapping state.runtimeConfig).Plain (keyFilter rt true false)
  metadata : (Value.mapping state.metadata).Plain (keyFilter rt true false)
  loopSettings : (Value.mapping state.loopSettings).Plain (keyFilter rt false false)
  aggregatePlan : (Value.mapping state.aggregatePlan).Plain (keyFilter rt true false)
  contextSummary : (Value.mapping state.contextSummary).Plain (keyFilter rt true false)
  traceOption : (Value.mapping state.traceOption).Plain (keyFilter rt false false)
  outputSchema : state.outputSchema.Plain (keyFilter rt false false)

structure CheckpointRecord.IsStored (rt : Runtime) (c : CheckpointRecord) : Prop where
  runState : c.runState.IsStored rt
  traceArtifact : c.traceArtifact.Plain (keyFilter rt true true)
  traceSummary : c.traceSummary.Plain (keyFilter rt true false)
  traceEvents : ∀ events, c.traceEvents = some events →
    ∀ v ∈ events, v.Plain (keyFilter rt true false)

structure MessageRecord.IsStored (rt : Runtime) (message : MessageRecord) : Prop where
  metadata : (Value.mapping message.metadata).Plain (keyFilter rt true false)
  structured : message.structured.Plain (keyFilter rt false false)
  codex : message.codex = .null

theorem plainMapping_of_plain {scrubKeys : Bool} {entries : Mapping}
    (h : (Value.mapping entries).Plain (keyFilter rt scrubKeys false)) :
    plainMapping rt scrubKeys entries = entries := by
  have hproject := Value.project_of_plain h
  rwa [Value.project_mapping, Value.mapping.injEq] at hproject

theorem safe_of_plain {scrubKeys preciseKeys : Bool} {v : Value}
    (h : v.Plain (keyFilter rt scrubKeys preciseKeys)) : safe rt v scrubKeys preciseKeys = v :=
  Value.project_of_plain h

theorem plain_plainMapping (scrubKeys : Bool) (entries : Mapping) :
    (Value.mapping (plainMapping rt scrubKeys entries)).Plain (keyFilter rt scrubKeys false) := by
  rw [← safe_mapping]
  exact Value.plain_project (marks_keyFilter _ _) _

theorem RunStateRecord.stored_of_isStored {state : RunStateRecord} (h : state.IsStored rt) :
    state.stored rt = state := by
  rw [stored, plainMapping_of_plain h.runtimeConfig, plainMapping_of_plain h.metadata,
    plainMapping_of_plain h.loopSettings, plainMapping_of_plain h.aggregatePlan,
    plainMapping_of_plain h.contextSummary, plainMapping_of_plain h.traceOption,
    safe_of_plain h.outputSchema]

theorem RunStateRecord.isStored_stored (state : RunStateRecord) : (state.stored rt).IsStored rt where
  runtimeConfig := plain_plainMapping true _
  metadata := plain_plainMapping true _
  loopSettings := plain_plainMapping false _
  aggregatePlan := plain_plainMapping true _
  contextSummary := plain_plainMapping true _
  traceOption := plain_plainMapping false _
  outputSchema := Value.plain_project (marks_keyFilter _ _) _

theorem CheckpointRecord.stored_of_isStored {c : CheckpointRecord} (h : c.IsStored rt) :
    c.stored rt = c := by
  have hevents : (c.traceEvents.map fun events => events.map fun v => safe rt v) = c.traceEvents := by
    cases hc : c.traceEvents with
    | none => rfl
    | some events =>
      rw [Option.map_some, List.map_congr_left fun v hv => safe_of_plain (h.traceEvents events hc v hv),
        List.map_id']
  rw [stored, RunStateRecord.stored_of_isStored h.runState, safe_of_plain h.traceArtifact,
    safe_of_plain h.traceSummary, hevents]

theorem CheckpointRecord.isStored_stored (c : CheckpointRecord) : (c.stored rt).IsStored rt where
  runState := c.runState.isStored_stored
  traceArtifact := Value.plain_project (marks_keyFilter _ _) _
  traceSummary := Value.plain_project (marks_keyFilter _ _) _
  traceEvents events hevents v hv := by
    obtain ⟨given, -, rfl⟩ := Option.map_eq_some_iff.mp hevents
    obtain ⟨w, -, rfl⟩ := List.mem_map.mp hv
    exact Value.plain_project (marks_keyFilter _ _) w

theorem MessageRecord.stored_of_isStored {message : MessageRecord} (h : message.IsStored rt) :
    message.stored rt = message := by
  rw [stored, plainMapping_of_plain h.metadata, safe_of_plain h.structured, ← h.codex]

theorem MessageRecord.isStored_stored (message : MessageRecord) :
    (message.stored rt).IsStored rt where
  metadata := plain_plainMapping true _
  structured := Value.plain_project (marks_keyFilter _ _) _
  codex := rfl

/-! ### Reading what was written -/

theorem ok_bind {α β : Type} (a : α) (f : α → Except SessionException β) :
    (Except.ok a >>= f) = f a := rfl

theorem getFieldD_cons (k : Key) (v default : Value) (entries : Mapping) (field : String) :
    getFieldD (.mapping ((k, v) :: entries)) field default =
      if k = key field then .ok v else getFieldD (.mapping entries) field default := by
  by_cases h : k = key field
  · simp only [getFieldD, getField, h, List.find?_cons, decide_true, if_true]
    rfl
  · simp only [getFieldD, getField, h, List.find?_cons, decide_false, if_false]

theorem requireField_cons (k : Key) (v : Value) (entries : Mapping) (field : String) :
    requireField (.mapping ((k, v) :: entries)) field =
      if k = key field then .ok v else requireField (.mapping entries) field := by
  by_cases h : k = key field
  · simp only [requireField, getField, h, List.find?_cons, decide_true, if_true]
    rfl
  · simp only [requireField, getField, h, List.find?_cons, decide_false, if_false]

theorem key_inj {a b : String} : key a = key b ↔ a = b := by simp [key]

theorem requireVersion_current (entries : Mapping) :
    requireVersion rt (.mapping ((key "schema_version", .int SESSION_SCHEMA_VERSION) :: entries))
      = .ok () := by
  have hget : getField (.mapping ((key "schema_version", .int SESSION_SCHEMA_VERSION) :: entries))
      "schema_version" = .ok (some (.int SESSION_SCHEMA_VERSION)) := by
    simp [getField]
  simp only [requireVersion, hget, ok_bind, Option.getD_some, readInt, rt.int_int, if_true]
  rfl

theorem mapM_asText (items : List String) : (items.map Value.str).mapM asText = .ok items := by
  induction items with
  | nil => rfl
  | cons s items ih =>
    rw [List.map_cons, List.mapM_cons, ih]
    rfl

theorem mapM_asDict (items : List Mapping) : (items.map Value.mapping).mapM asDict = .ok items := by
  induction items with
  | nil => rfl
  | cons m items ih =>
    rw [List.map_cons, List.mapM_cons, ih]
    rfl

@[simp] theorem asText_str (s : String) : asText (.str s) = .ok s := rfl

@[simp] theorem asTexts_texts (items : List String) : asTexts (texts items) = .ok items :=
  mapM_asText items

@[simp] theorem orEmpty_asTexts (items : List String) : orEmpty asTexts (texts items) = .ok items := by
  cases items with
  | nil => rfl
  | cons s items => exact asTexts_texts (s :: items)

@[simp] theorem orEmpty_asDicts (items : List Mapping) :
    orEmpty asDicts (.list (items.map .mapping)) = .ok items := by
  cases items with
  | nil => rfl
  | cons m items => exact mapM_asDict (m :: items)

@[simp] theorem orEmpty_asDict (entries : Mapping) :
    orEmpty asDict (.mapping entries) = .ok entries := by
  cases entries <;> rfl

@[simp] theorem asOptionalText_orNull (s : Option String) :
    asOptionalText (orNull .str s) = .ok s := by
  cases s <;> rfl

@[simp] theorem asOptionalTexts_orNull (items : Option (List String)) :
    asOptionalTexts (orNull texts items) = .ok items := by
  cases items with
  | none => rfl
  | some items =>
    change (asTexts (texts items) >>= fun items => pure (some items)) = _
    rw [asTexts_texts]
    rfl

@[simp] theorem readInt_int (n : Int) : readInt rt (.int n) = .ok n := by
  rw [readInt, rt.int_int]

@[simp] theorem asStatus_value (status : SessionStatus) :
    asStatus (.str status.value) = .ok status := by
  cases status <;> decide +kernel

theorem runStateFromDict_runStateToDict (state : RunStateRecord) :
    runStateFromDict rt (runStateToDict rt state) = .ok (state.stored rt) := by
  simp only [runStateFromDict, runStateToDict, getFieldD_cons, key_inj, String.reduceEq, if_false,
    if_true, ok_bind, readInt_int, asText_str, safe_mapping, scrubMetadata_nil, orEmpty_asTexts,
    orEmpty_asDict, orEmpty_asDicts, asOptionalText_orNull, asOptionalTexts_orNull]
  rfl

theorem eventsOf_orNull (events : Option (List Value)) :
    eventsOf (orNull (fun events => safe rt (.list events)) events)
      = events.map fun events => events.map fun v => safe rt v := by
  cases events with
  | none => rfl
  | some events => exact congrArg eventsOf (safe_list true false events)

theorem checkpointFromDict_checkpointToDict (c : CheckpointRecord) :
    checkpointFromDict rt (checkpointToDict rt c) = .ok (c.stored rt) := by
  rw [checkpointFromDict, checkpointToDict, requireVersion_current]
  simp only [getFieldD_cons, requireField_cons, key_inj, String.reduceEq, if_false, if_true, ok_bind,
    readInt_int, asText_str, asOptionalText_orNull, asStatus_value,
    runStateFromDict_runStateToDict, eventsOf_orNull]
  rfl

theorem metaFromDict_metaToDict (m : SessionMeta) : metaFromDict rt (metaToDict m) = .ok m := by
  rw [metaFromDict, metaToDict, requireVersion_current]
  simp only [getFieldD_cons, requireField_cons, key_inj, String.reduceEq, if_false, if_true, ok_bind,
    asText_str, asOptionalText_orNull, asStatus_value, orEmpty_asTexts]
  rfl

theorem messageFromDict_messageToDict (message : MessageRecord) :
    messageFromDict (messageToDict rt message) = .ok (message.stored rt) := by
  simp only [messageFromDict, messageToDict, getFieldD_cons, key_inj, String.reduceEq, if_false,
    if_true, ok_bind, asText_str, scrubMetadata_nil, orEmpty_asDict]
  rfl

/-! ### Writing the stored form -/

theorem runStateToDict_stored (state : RunStateRecord) :
    runStateToDict rt (state.stored rt) = runStateToDict rt state := by
  simp only [runStateToDict, RunStateRecord.stored, safe_mapping, scrubMetadata_nil, safe_safe,
    plainMapping_plainMapping]

theorem checkpointToDict_stored (c : CheckpointRecord) :
    checkpointToDict rt (c.stored rt) = checkpointToDict rt c := by
  have hevents : orNull (fun events => safe rt (.list events)) (c.stored rt).traceEvents
      = orNull (fun events => safe rt (.list events)) c.traceEvents := by
    rw [CheckpointRecord.stored]
    cases c.traceEvents with
    | none => rfl
    | some events =>
      simp only [orNull, Option.map_some, safe_list, List.map_map, Function.comp_def, safe_safe]
  rw [checkpointToDict, checkpointToDict, hevents]
  simp only [CheckpointRecord.stored, runStateToDict_stored, safe_safe]

theorem messageToDict_stored (message : MessageRecord) :
    messageToDict rt (message.stored rt) = messageToDict rt message := by
  simp only [messageToDict, MessageRecord.stored, scrubMetadata_nil, safe_safe,
    plainMapping_plainMapping]

/-! ### Scrubbed fields -/

/-- The fields of a checkpoint that are written without secret keys. -/
inductive ScrubbedField
  | metadata | runtimeConfig | aggregatePlan | contextSummary | traceArtifact | traceSummary
  | traceEvents
  deriving DecidableEq

namespace ScrubbedField

def path : ScrubbedField → List Value.Step
  | metadata => [.key "checkpoint", .key "run_state", .key "metadata"]
  | runtimeConfig => [.key "checkpoint", .key "run_state", .key "runtime_config"]
  | aggregatePlan => [.key "checkpoint", .key "run_state", .key "aggregate_plan"]
  | contextSummary => [.key "checkpoint", .key "run_state", .key "context_summary"]
  | traceArtifact => [.key "checkpoint", .key "trace_artifact"]
  | traceSummary => [.key "checkpoint", .key "trace_summary"]
  | traceEvents => [.key "checkpoint", .key "trace_events"]

def content (c : CheckpointRecord) : ScrubbedField → Value
  | metadata => .mapping c.runState.metadata
  | runtimeConfig => .mapping c.runState.runtimeConfig
  | aggregatePlan => .mapping c.runState.aggregatePlan
  | contextSummary => .mapping c.runState.contextSummary
  | traceArtifact => c.traceArtifact
  | traceSummary => c.traceSummary
  | traceEvents => orNull .list c.traceEvents

def secret (casing : Casing) : ScrubbedField → String → Bool
  | traceArtifact => CredentialKeyPolicy.isSecretKey casing
  | _ => isSecretKey casing

def filter (rt : Runtime) (field : ScrubbedField) : Value.Filter :=
  keyFilter rt true (field = traceArtifact)

theorem drops_filter (field : ScrubbedField) (k : String) :
    (field.filter rt).drops k = field.secret rt.toCasing k := by
  cases field <;> simp [filter, keyFilter, secret]

theorem marks_filter (field : ScrubbedField) : (field.filter rt).Marks := marks_keyFilter _ _

theorem get?_path (c : CheckpointRecord) (field : ScrubbedField) :
    (checkpointToDict rt c).get? field.path = some ((field.content c).project (field.filter rt)) := by
  cases field with
  | metadata =>
    change some (Value.mapping (scrubMetadata rt [] c.runState.metadata)) = _
    rw [scrubMetadata_nil]
    exact congrArg some (safe_mapping true _).symm
  | traceEvents =>
    change some (orNull (fun events => safe rt (.list events)) c.traceEvents) = _
    rw [content]
    cases c.traceEvents <;> rfl
  | runtimeConfig => rfl
  | aggregatePlan => rfl
  | contextSummary => rfl
  | traceArtifact => rfl
  | traceSummary => rfl

end ScrubbedField

/-! ### The codec -/

/-- Writing and reading normalizes: what was read is in stored form and is written as before, and a record in
stored form comes back itself. -/
structure Codec {α : Type} (toDict : α → Value) (fromDict : Value → Except SessionException α)
    (IsStored : α → Prop) : Prop where
  reads_back : ∀ a, ∃ b, fromDict (toDict a) = .ok b ∧ toDict b = toDict a ∧ IsStored b
  stored_fixed : ∀ a, IsStored a → fromDict (toDict a) = .ok a

/-- The codecs of checkpoints, metadata and messages round-trip, and every scrubbed field of JSON-like data is
written without its secret keys and with everything else. -/
theorem codec_round_trip (rt : Runtime) :
    Codec (checkpointToDict rt) (checkpointFromDict rt) (CheckpointRecord.IsStored rt) ∧
    Codec metaToDict (metaFromDict rt) (fun _ => True) ∧
    Codec (messageToDict rt) messageFromDict (MessageRecord.IsStored rt) ∧
    (∀ (c : CheckpointRecord) (field : ScrubbedField), (field.content c).JsonLike →
      ∃ out, (checkpointToDict rt c).get? field.path = some out ∧
        Value.Scrubbed (field.secret rt.toCasing) (field.content c) out) ∧
    ∀ message : MessageRecord, (Value.mapping message.metadata).JsonLike →
      ∃ out, (messageToDict rt message).get? [.key "metadata"] = some out ∧
        Value.Scrubbed (isSecretKey rt.toCasing) (.mapping message.metadata) out := by
  refine ⟨⟨fun c => ?_, fun c hc => ?_⟩, ⟨fun m => ?_, fun m _ => ?_⟩,
    ⟨fun message => ?_, fun message hm => ?_⟩, fun c field hlike => ?_, fun message hlike => ?_⟩
  · exact ⟨c.stored rt, checkpointFromDict_checkpointToDict c, checkpointToDict_stored c,
      c.isStored_stored⟩
  · rw [checkpointFromDict_checkpointToDict, CheckpointRecord.stored_of_isStored hc]
  · exact ⟨m, metaFromDict_metaToDict m, rfl, trivial⟩
  · exact metaFromDict_metaToDict m
  · exact ⟨message.stored rt, messageFromDict_messageToDict message, messageToDict_stored message,
      message.isStored_stored⟩
  · rw [messageFromDict_messageToDict, MessageRecord.stored_of_isStored hm]
  · have hmarks : (field.filter rt).Marks := field.marks_filter
    have hscrubbed := Value.scrubbed_project hmarks hlike
    rw [funext field.drops_filter] at hscrubbed
    exact ⟨_, ScrubbedField.get?_path c field, hscrubbed⟩
  · have hmarks : (keyFilter rt true false).Marks := marks_keyFilter true false
    have hscrubbed := Value.scrubbed_project hmarks hlike
    have hdrops : (keyFilter rt true false).drops = isSecretKey rt.toCasing := by
      funext k
      simp [keyFilter]
    rw [hdrops, Value.project_mapping] at hscrubbed
    refine ⟨_, ?_, hscrubbed⟩
    change some (Value.mapping (scrubMetadata rt [] message.metadata)) = _
    rw [scrubMetadata_nil]
    rfl

end VidbyteSdk.Sessions
