import VidbyteSdk.Lib.Checks
import VidbyteSdk.Sessions.SerializationLaws

/-!
# Bundle export

`SessionBundleExporter` of `sessions/portable.py`, over a store of full records. A member of the archive
is given by the data that its JSON text holds. The archive's names are the ids and sequence numbers of
the checkpoints; `zipfile` would cut a name at a NUL, which no minted id holds.
-/

namespace VidbyteSdk.Sessions

open VidbyteSdk.Lib SessionSerializer

/-! ### Records in a store -/

/-- What a store of full records holds in a row: free-form values, and the fields of a run state that the
sessions pass through. -/
inductive Datum
  | value (v : Value)
  | fields (rest : RunStateFields)

namespace Datum

/-- A free-form value of a row, `None` as absent. -/
def ofValue : Value → Option Datum
  | .null => none
  | v => some (.value v)

def value? : Datum → Option Value
  | .value v => some v
  | .fields _ => none

def mapping? : Datum → Option Mapping
  | .value (.mapping entries) => some entries
  | _ => none

def fields? : Datum → Option RunStateFields
  | .value _ => none
  | .fields rest => some rest

/-- The value of a row's field: `None` is an absent field, never a present one. -/
def orNull : Option Datum → Option Value
  | none => some .null
  | some (.value .null) => none
  | some d => d.value?

def events? : Option (List Datum) → Option (Option (List Value))
  | none => some none
  | some events => (events.mapM value?).map some

end Datum

def RunStateRecord.row (state : RunStateRecord) : RunState Datum where
  agentName := state.agentName
  history := state.history.map fun entries => .value (.mapping entries)
  fields := .fields state.toRunStateFields

def CheckpointRecord.row (c : CheckpointRecord) : Checkpoint Datum where
  id := c.id
  sessionId := c.sessionId
  parentId := c.parentId
  seq := c.seq
  createdAt := c.createdAt
  runState := c.runState.row
  label := c.label
  status := c.status
  traceArtifact := Datum.ofValue c.traceArtifact
  traceSummary := Datum.ofValue c.traceSummary
  traceEvents := c.traceEvents.map fun events => events.map .value

def record? (c : Checkpoint Datum) : Option CheckpointRecord := do
  let rest ← c.runState.fields.fields?
  let history ← c.runState.history.mapM Datum.mapping?
  let traceArtifact ← Datum.orNull c.traceArtifact
  let traceSummary ← Datum.orNull c.traceSummary
  let traceEvents ← Datum.events? c.traceEvents
  some
    { id := c.id, sessionId := c.sessionId, parentId := c.parentId, seq := c.seq
      createdAt := c.createdAt
      runState := { rest with agentName := c.runState.agentName, history }
      label := c.label, status := c.status, traceArtifact, traceSummary, traceEvents }

/-! ### Export -/

/-- `f"{seq:08d}"` -/
def paddedSeq (seq : Int) : String :=
  let sign := if seq < 0 then "-" else ""
  let digits := toString seq.natAbs
  sign ++ String.ofList (List.replicate (8 - sign.length - digits.length) '0') ++ digits

/-- `_checkpoint_name`. -/
def archiveName (c : Checkpoint Datum) : String :=
  s!"checkpoints/{paddedSeq c.seq}-{c.id}.json"

/-- `_build_manifest`; nothing reads the time of the export. -/
def buildManifest (m : SessionMeta) (checkpoints : List (Checkpoint Datum)) : Manifest where
  schemaVersion := some (some SESSION_SCHEMA_VERSION)
  sessionId := some m.sessionId
  checkpointCount := some (some checkpoints.length)

/-- `_write_json`, by the data that a reader of the member finds. -/
def writeJson (payload : Value) : Except SessionException Value :=
  match payload.reloaded with
  | none => .error (.other "TypeError: not JSON serializable")
  | some data => .ok data

def writeCheckpointMember (rt : Runtime) (c : Checkpoint Datum) :
    Except SessionException (String × Value) :=
  match record? c with
  | none => .error undeclared
  | some r => do
    let data ← writeJson (checkpointToDict rt r)
    pure (archiveName c, data)

/-- `_read_checkpoints`: the checkpoint members in the order of their names. -/
def readCheckpoints (rt : Runtime) (members : List (String × Value)) :
    List (Except SessionException (Checkpoint Datum)) :=
  (members.mergeSort fun a b => decide (a.1 ≤ b.1)).map fun member =>
    (checkpointFromDict rt member.2).map CheckpointRecord.row

/-- `get_meta`, of a store that does not change. -/
def metaOf (st : Store Datum) (sessionId : String) : Except SessionException SessionMeta :=
  match st.readMeta sessionId with
  | none => .error (.sessionNotFound s!"Unknown session id: {sessionId}.")
  | some m => .ok m

/-- `SessionBundleExporter.export`, by what the members of the archive parse to. -/
def exportBundle (rt : Runtime) (st : Store Datum) (sessionId : String) :
    Except SessionException (Bundle Datum) := do
  let m ← metaOf st sessionId
  let checkpoints := st.history sessionId
  let metaData ← writeJson (metaToDict m)
  let members ← checkpoints.mapM (writeCheckpointMember rt)
  pure
    { manifest := .ok (buildManifest m checkpoints)
      sessionMeta := metaFromDict rt metaData
      checkpoints := readCheckpoints rt members }

/-! ### What an archive gives back -/

variable {rt : Runtime}

/-- A record as an archive gives it back: in stored form, its other values once through JSON text. `none`
where JSON cannot hold one of them. -/
def CheckpointRecord.archived (rt : Runtime) (c : CheckpointRecord) : Option CheckpointRecord := do
  let temperature ← c.runState.temperature.reloaded
  let agentMetadata ← Value.reloadedMapping c.runState.agentMetadata
  let history ← c.runState.history.mapM Value.reloadedMapping
  some { c.stored rt with runState :=
    { c.runState.stored rt with temperature, agentMetadata, history } }

def archived (rt : Runtime) (c : Checkpoint Datum) : Option (Checkpoint Datum) := do
  let r ← record? c
  let a ← r.archived rt
  some a.row

/-! ### Rows and records -/

theorem mapM_value? {data : List Datum} {values : List Value} (h : data.mapM Datum.value? = some values) :
    values.map .value = data := by
  induction data generalizing values with
  | nil =>
    cases h
    rfl
  | cons d data ih =>
    rw [List.mapM_cons] at h
    obtain ⟨v, hv, hrest⟩ := Option.bind_eq_some_iff.mp h
    obtain ⟨vs, hvs, hresult⟩ := Option.bind_eq_some_iff.mp hrest
    cases hresult
    cases d with
    | fields rest => cases hv
    | value w =>
      cases hv
      rw [List.map_cons, ih hvs]

theorem mapM_mapping? {data : List Datum} {items : List Mapping}
    (h : data.mapM Datum.mapping? = some items) :
    (items.map fun entries => Datum.value (.mapping entries)) = data := by
  induction data generalizing items with
  | nil =>
    cases h
    rfl
  | cons d data ih =>
    rw [List.mapM_cons] at h
    obtain ⟨m, hm, hrest⟩ := Option.bind_eq_some_iff.mp h
    obtain ⟨ms, hms, hresult⟩ := Option.bind_eq_some_iff.mp hrest
    cases hresult
    rw [List.map_cons, ih hms]
    cases d with
    | fields rest => cases hm
    | value w =>
      cases w <;> cases hm
      rfl

theorem ofValue_of_orNull {d : Option Datum} {v : Value} (h : Datum.orNull d = some v) :
    Datum.ofValue v = d := by
  cases d with
  | none =>
    cases h
    rfl
  | some d =>
    cases d with
    | fields rest => cases h
    | value w => cases w <;> cases h <;> rfl

theorem row_of_record? {c : Checkpoint Datum} {r : CheckpointRecord} (h : record? c = some r) :
    r.row = c := by
  obtain ⟨rest, hrest, h⟩ := Option.bind_eq_some_iff.mp h
  obtain ⟨history, hhistory, h⟩ := Option.bind_eq_some_iff.mp h
  obtain ⟨artifact, hartifact, h⟩ := Option.bind_eq_some_iff.mp h
  obtain ⟨summary, hsummary, h⟩ := Option.bind_eq_some_iff.mp h
  obtain ⟨events, hevents, h⟩ := Option.bind_eq_some_iff.mp h
  cases h
  obtain ⟨id, sessionId, parentId, seq, createdAt, ⟨agentName, given, fields⟩, label, status,
    traceArtifact, traceSummary, traceEvents⟩ := c
  simp only at hrest hhistory hartifact hsummary hevents
  have hfields : Datum.fields rest = fields := by
    cases fields with
    | value v => cases hrest
    | fields rest' =>
      cases hrest
      rfl
  have htrace : (events.map fun events => events.map Datum.value) = traceEvents := by
    cases traceEvents with
    | none =>
      cases hevents
      rfl
    | some data =>
      obtain ⟨values, hvalues, hresult⟩ := Option.map_eq_some_iff.mp hevents
      subst hresult
      rw [Option.map_some, mapM_value? hvalues]
  simp only [CheckpointRecord.row, RunStateRecord.row, mapM_mapping? hhistory, hfields,
    ofValue_of_orNull hartifact, ofValue_of_orNull hsummary, htrace]

/-! ### Payloads through JSON text -/

theorem reloaded_payload {entries es : Mapping} (hnodup : (entries.map Prod.fst).Nodup)
    (h : List.Forall₂ (fun e d => e.1.isStr = true ∧ d.1 = e.1 ∧ e.2.reloaded = some d.2) entries es) :
    (Value.mapping entries).reloaded = some (.mapping es) := by
  have hentries : Value.reloadedEntries entries = some es := by
    clear hnodup
    induction h with
    | nil => rfl
    | @cons e d entries es he _ ih =>
      obtain ⟨⟨text, isStr⟩, v⟩ := e
      obtain ⟨dk, dv⟩ := d
      obtain ⟨hstr, hkey, hv⟩ := he
      simp only at hstr hkey hv
      rw [Value.reloadedEntries, hv, ih, hkey, hstr]
      rfl
  have hkeys : es.map Prod.fst = entries.map Prod.fst := by
    clear hnodup hentries
    induction h with
    | nil => rfl
    | cons he _ ih => rw [List.map_cons, List.map_cons, he.2.1, ih]
  rw [Value.reloaded, hentries, Option.map_some, upsertAll_of_nodup (hkeys ▸ hnodup)]

theorem nodup_map_key {names : List String} (h : names.Nodup) : (names.map key).Nodup :=
  h.map fun _ _ hab => key_inj.mp hab

@[simp] theorem reloaded_int (n : Int) : (Value.int n).reloaded = some (.int n) := rfl

@[simp] theorem reloaded_str (s : String) : (Value.str s).reloaded = some (.str s) := rfl

@[simp] theorem reloaded_safe (scrubKeys preciseKeys : Bool) (v : Value) :
    (safe rt v scrubKeys preciseKeys).reloaded = some (safe rt v scrubKeys preciseKeys) :=
  Value.reloaded_of_plain (Value.plain_project (marks_keyFilter _ _) v)

@[simp] theorem reloaded_plainMapping (scrubKeys : Bool) (entries : Mapping) :
    (Value.mapping (plainMapping rt scrubKeys entries)).reloaded
      = some (.mapping (plainMapping rt scrubKeys entries)) := by
  rw [← safe_mapping]
  exact reloaded_safe scrubKeys false _

@[simp] theorem reloaded_texts (items : List String) : (texts items).reloaded = some (texts items) := by
  rw [texts, Value.reloaded, Value.reloadedItems_of_forall, Option.map_some]
  intro v hv
  obtain ⟨s, -, rfl⟩ := List.mem_map.mp hv
  rfl

@[simp] theorem reloaded_orNull_str (s : Option String) :
    (orNull .str s).reloaded = some (orNull .str s) := by
  cases s <;> rfl

@[simp] theorem reloaded_orNull_texts (items : Option (List String)) :
    (orNull texts items).reloaded = some (orNull texts items) := by
  cases items with
  | none => rfl
  | some items => exact reloaded_texts items

theorem reloadedItems_mapping (items : List Mapping) :
    Value.reloadedItems (items.map .mapping)
      = (items.mapM Value.reloadedMapping).map (List.map .mapping) := by
  induction items with
  | nil => rfl
  | cons m items ih =>
    rw [List.map_cons, Value.reloadedItems, Value.reloaded_mapping, ih, List.mapM_cons]
    cases Value.reloadedMapping m with
    | none => rfl
    | some w => cases items.mapM Value.reloadedMapping <;> rfl

def RUN_STATE_FIELDS : List String :=
  ["schema_version", "agent_name", "system_prompt", "description", "capabilities", "provider",
    "model_name", "temperature", "runtime_type", "runtime_config", "algorithm", "metadata",
    "agent_metadata", "tool_names", "history", "run_id", "loop_settings", "aggregate_plan",
    "context_summary", "trace_option", "output_schema", "permission_policy",
    "system_prompt_presets"]

theorem reloaded_runStateToDict {state : RunStateRecord} {temperature : Value}
    {agentMetadata : Mapping} {history : List Mapping}
    (ht : state.temperature.reloaded = some temperature)
    (hm : Value.reloadedMapping state.agentMetadata = some agentMetadata)
    (hh : state.history.mapM Value.reloadedMapping = some history) :
    (runStateToDict rt state).reloaded
      = some (runStateToDict rt { state.stored rt with temperature, agentMetadata, history }) := by
  have hmeta : (Value.mapping state.agentMetadata).reloaded = some (.mapping agentMetadata) := by
    rw [Value.reloaded_mapping, hm, Option.map_some]
  have hhistory : (Value.list (state.history.map .mapping)).reloaded
      = some (.list (history.map .mapping)) := by
    rw [Value.reloaded, reloadedItems_mapping, hh, Option.map_some, Option.map_some]
  have hnames : RUN_STATE_FIELDS.Nodup := by decide +kernel
  refine reloaded_payload (nodup_map_key hnames) ?_
  simp [ht, hmeta, hhistory, safe_mapping, RunStateRecord.stored, key]

def CHECKPOINT_FIELDS : List String :=
  ["id", "session_id", "parent_id", "seq", "created_at", "label", "status", "run_state",
    "trace_artifact", "trace_summary", "trace_events"]

theorem reloaded_checkpointToDict {c a : CheckpointRecord} (h : c.archived rt = some a) :
    (checkpointToDict rt c).reloaded = some (checkpointToDict rt a) := by
  obtain ⟨temperature, ht, h⟩ := Option.bind_eq_some_iff.mp h
  obtain ⟨agentMetadata, hm, h⟩ := Option.bind_eq_some_iff.mp h
  obtain ⟨history, hh, h⟩ := Option.bind_eq_some_iff.mp h
  cases h
  have hstate : (runStateToDict rt c.runState).reloaded = some (runStateToDict rt
      { c.runState.stored rt with temperature, agentMetadata, history }) :=
    reloaded_runStateToDict ht hm hh
  have hevents : (orNull (fun events => safe rt (.list events)) c.traceEvents).reloaded
      = some (orNull (fun events => safe rt (.list events)) (c.stored rt).traceEvents) := by
    rw [CheckpointRecord.stored]
    cases c.traceEvents with
    | none => rfl
    | some events =>
      simp only [orNull, Option.map_some, reloaded_safe]
      simp only [safe_list, List.map_map, Function.comp_def, safe_safe]
  have hnames : CHECKPOINT_FIELDS.Nodup := by decide +kernel
  have houter : ["schema_version", "checkpoint"].Nodup := by decide
  refine reloaded_payload (nodup_map_key houter)
    (.cons ⟨rfl, rfl, reloaded_int _⟩ (.cons ⟨rfl, rfl, ?_⟩ .nil))
  refine reloaded_payload (nodup_map_key hnames) ?_
  simp [key, hstate, hevents]
  simp [CheckpointRecord.stored]

theorem reloaded_of_mem {entries : Mapping} {data : Value} {e : Key × Value}
    (h : (Value.mapping entries).reloaded = some data) (he : e ∈ entries) :
    ∃ w, e.2.reloaded = some w := by
  rw [Value.reloaded] at h
  obtain ⟨es, hes, -⟩ := Option.map_eq_some_iff.mp h
  clear h
  induction entries generalizing es with
  | nil => cases he
  | cons d entries ih =>
    obtain ⟨k, v⟩ := d
    rw [Value.reloadedEntries] at hes
    obtain ⟨w, hw, hes⟩ := Option.bind_eq_some_iff.mp hes
    obtain ⟨ws, hws, -⟩ := Option.bind_eq_some_iff.mp hes
    rcases List.mem_cons.mp he with rfl | he
    · exact ⟨w, hw⟩
    · exact ih he ws hws

theorem writeJson_checkpointToDict {c : CheckpointRecord} {data : Value}
    (h : writeJson (checkpointToDict rt c) = .ok data) :
    ∃ a, c.archived rt = some a ∧ data = checkpointToDict rt a := by
  unfold writeJson at h
  cases hdata : (checkpointToDict rt c).reloaded with
  | none => simp [hdata] at h
  | some data' =>
    simp only [hdata, Except.ok.injEq] at h
    subst h
    obtain ⟨body, hbody⟩ := reloaded_of_mem hdata (List.mem_cons_of_mem _ List.mem_cons_self)
    obtain ⟨state, hstate⟩ := reloaded_of_mem (e := (key "run_state", runStateToDict rt c.runState))
      hbody (by simp)
    obtain ⟨temperature, ht⟩ := reloaded_of_mem (e := (key "temperature", c.runState.temperature))
      hstate (by simp)
    obtain ⟨metadata, hm⟩ := reloaded_of_mem
      (e := (key "agent_metadata", .mapping c.runState.agentMetadata)) hstate (by simp)
    obtain ⟨history, hh⟩ := reloaded_of_mem
      (e := (key "history", .list (c.runState.history.map .mapping))) hstate (by simp)
    simp only at ht hm hh
    rw [Value.reloaded_mapping] at hm
    rw [Value.reloaded, reloadedItems_mapping, Option.map_map] at hh
    obtain ⟨agentMetadata, hm, -⟩ := Option.map_eq_some_iff.mp hm
    obtain ⟨items, hh, -⟩ := Option.map_eq_some_iff.mp hh
    obtain ⟨a, ha⟩ : ∃ a, c.archived rt = some a := by
      rw [CheckpointRecord.archived, ht, hm, hh]
      exact ⟨_, rfl⟩
    refine ⟨a, ha, Option.some_inj.mp ?_⟩
    rw [← hdata, reloaded_checkpointToDict ha]

theorem CheckpointRecord.isStored_of_archived {c a : CheckpointRecord} (h : c.archived rt = some a) :
    a.IsStored rt := by
  obtain ⟨temperature, -, h⟩ := Option.bind_eq_some_iff.mp h
  obtain ⟨agentMetadata, -, h⟩ := Option.bind_eq_some_iff.mp h
  obtain ⟨history, -, h⟩ := Option.bind_eq_some_iff.mp h
  cases h
  have hstored : (c.stored rt).IsStored rt := c.isStored_stored
  have hstate := hstored.runState
  exact ⟨⟨hstate.runtimeConfig, hstate.metadata, hstate.loopSettings, hstate.aggregatePlan,
    hstate.contextSummary, hstate.traceOption, hstate.outputSchema⟩, hstored.traceArtifact,
    hstored.traceSummary, hstored.traceEvents⟩

theorem writeCheckpointMember_eq_ok {c : Checkpoint Datum} {member : String × Value}
    (h : writeCheckpointMember rt c = .ok member) :
    ∃ d, archived rt c = some d ∧ (checkpointFromDict rt member.2).map CheckpointRecord.row = .ok d := by
  unfold writeCheckpointMember at h
  cases hr : record? c with
  | none => simp [hr] at h
  | some r =>
    simp only [hr] at h
    obtain ⟨data, hdata, hmember⟩ := bind_eq_ok h
    cases hmember
    obtain ⟨a, ha, rfl⟩ := writeJson_checkpointToDict hdata
    refine ⟨a.row, ?_, ?_⟩
    · exact Option.bind_eq_some_iff.mpr ⟨r, hr, Option.bind_eq_some_iff.mpr ⟨a, ha, rfl⟩⟩
    · rw [checkpointFromDict_checkpointToDict,
        CheckpointRecord.stored_of_isStored (CheckpointRecord.isStored_of_archived ha)]
      rfl

/-! ### The archived row -/

theorem archived_eq {c d : Checkpoint Datum} (h : archived rt c = some d) :
    d = { c with
      runState := d.runState
      traceArtifact := d.traceArtifact
      traceSummary := d.traceSummary
      traceEvents := d.traceEvents } := by
  obtain ⟨r, hr, h⟩ := Option.bind_eq_some_iff.mp h
  obtain ⟨a, ha, h⟩ := Option.bind_eq_some_iff.mp h
  obtain ⟨temperature, -, ha⟩ := Option.bind_eq_some_iff.mp ha
  obtain ⟨agentMetadata, -, ha⟩ := Option.bind_eq_some_iff.mp ha
  obtain ⟨history, -, ha⟩ := Option.bind_eq_some_iff.mp ha
  cases ha
  cases h
  rw [← row_of_record? hr]
  rfl

theorem mapM_map_eq_some {α β : Type} {f : α → β} {g : β → Option α} (h : ∀ a, g (f a) = some a)
    (l : List α) : (l.map f).mapM g = some l := by
  induction l with
  | nil => rfl
  | cons a l ih =>
    rw [List.map_cons, List.mapM_cons, h, ih]
    rfl

theorem orNull_ofValue (v : Value) : Datum.orNull (Datum.ofValue v) = some v := by
  cases v <;> rfl

theorem record?_row (r : CheckpointRecord) : record? r.row = some r := by
  have hvalues : ∀ v : Value, (Datum.value v).value? = some v := fun _ => rfl
  have hmappings : ∀ entries : Mapping, (Datum.value (.mapping entries)).mapping? = some entries :=
    fun _ => rfl
  have hhistory : r.row.runState.history.mapM Datum.mapping? = some r.runState.history :=
    mapM_map_eq_some hmappings _
  have hevents : Datum.events? r.row.traceEvents = some r.traceEvents := by
    rw [CheckpointRecord.row]
    cases r.traceEvents with
    | none => rfl
    | some events => exact congrArg (Option.map some) (mapM_map_eq_some hvalues events)
  have hartifact : Datum.orNull r.row.traceArtifact = some r.traceArtifact := orNull_ofValue _
  have hsummary : Datum.orNull r.row.traceSummary = some r.traceSummary := orNull_ofValue _
  rw [record?, hhistory, hartifact, hsummary, hevents]
  rfl

/-- A row of a record in stored form whose other values are plain data too. -/
structure RowStored (rt : Runtime) (c : Checkpoint Datum) : Prop where
  record : ∃ r : CheckpointRecord, r.row = c ∧ r.IsStored rt ∧
    r.runState.temperature.Plain (keyFilter rt false false) ∧
    (Value.mapping r.runState.agentMetadata).Plain (keyFilter rt false false) ∧
    ∀ entries ∈ r.runState.history, (Value.mapping entries).Plain (keyFilter rt false false)

theorem reloadedMapping_of_plain {f : Value.Filter} {entries : Mapping}
    (h : (Value.mapping entries).Plain f) : Value.reloadedMapping entries = some entries := by
  have hreloaded := Value.reloaded_of_plain h
  rw [Value.reloaded_mapping] at hreloaded
  obtain ⟨es, hes, heq⟩ := Option.map_eq_some_iff.mp hreloaded
  cases heq
  exact hes

theorem archived_of_rowStored {c : Checkpoint Datum} (h : RowStored rt c) :
    archived rt c = some c := by
  obtain ⟨r, rfl, hr, ht, hm, hh⟩ := h.record
  have hhistory : r.runState.history.mapM Value.reloadedMapping = some r.runState.history := by
    generalize r.runState.history = items at hh
    induction items with
    | nil => rfl
    | cons entries items ih =>
      rw [List.mapM_cons, reloadedMapping_of_plain (hh entries List.mem_cons_self),
        ih fun m hm => hh m (List.mem_cons_of_mem _ hm)]
      rfl
  have harchived : r.archived rt = some r := by
    rw [CheckpointRecord.archived, Value.reloaded_of_plain ht, reloadedMapping_of_plain hm, hhistory,
      CheckpointRecord.stored_of_isStored hr, RunStateRecord.stored_of_isStored hr.runState]
    rfl
  exact Option.bind_eq_some_iff.mpr ⟨r, record?_row r, Option.bind_eq_some_iff.mpr ⟨r, harchived, rfl⟩⟩

/-! ### The bundle -/

theorem writeJson_metaToDict (m : SessionMeta) : writeJson (metaToDict m) = .ok (metaToDict m) := by
  have hnames : ["schema_version", "session_id", "head_id", "parent_session_id", "agent_name", "status",
      "created_at", "updated_at", "tags"].Nodup := by decide +kernel
  have hreloaded : (metaToDict m).reloaded = some (metaToDict m) := by
    refine reloaded_payload (nodup_map_key hnames) ?_
    simp [key]
  rw [writeJson, hreloaded]

theorem readCheckpoints_perm {cs : List (Checkpoint Datum)} {members : List (String × Value)}
    (h : List.Forall₂ (fun c member => writeCheckpointMember rt c = .ok member) cs members) :
    ∃ back rows : List (Checkpoint Datum),
      List.Forall₂ (fun c d => archived rt c = some d) cs back ∧ rows.Perm back ∧
        readCheckpoints rt members = rows.map .ok := by
  have hread : ∃ back, List.Forall₂ (fun c d => archived rt c = some d) cs back ∧
      List.Forall₂ (fun member d =>
        (checkpointFromDict rt member.2).map CheckpointRecord.row = .ok d) members back := by
    induction h with
    | nil => exact ⟨[], .nil, .nil⟩
    | cons hc _ ih =>
      obtain ⟨d, hd, hrow⟩ := writeCheckpointMember_eq_ok hc
      obtain ⟨back, hback, hrows⟩ := ih
      exact ⟨d :: back, .cons hd hback, .cons hrow hrows⟩
  obtain ⟨back, hback, hrows⟩ := hread
  -- sorting the names permutes the rows
  obtain ⟨rows, hsorted, hperm⟩ := List.perm_comp_forall₂ (List.mergeSort_perm members _) hrows
  refine ⟨back, rows, hback, hperm, ?_⟩
  rw [readCheckpoints, ← List.forall₂_eq_eq_eq, List.forall₂_map_left_iff, List.forall₂_map_right_iff]
  exact hsorted

theorem mapM_ok {α ε : Type} (l : List α) : (l.map fun a => (Except.ok a : Except ε α)).mapM id = .ok l := by
  induction l with
  | nil => rfl
  | cons a l ih =>
    rw [List.map_cons, List.mapM_cons, ih]
    rfl

theorem readBundle_exportBundle {st : Store Datum} {sessionId : String} {bundle : Bundle Datum}
    (h : exportBundle rt st sessionId = .ok bundle) :
    ∃ m back rows, st.readMeta sessionId = some m ∧
      List.Forall₂ (fun c d => archived rt c = some d) (st.history sessionId) back ∧
      rows.Perm back ∧ readBundle bundle = .ok (m, rows) := by
  obtain ⟨m, hm, h⟩ := bind_eq_ok h
  obtain ⟨metaData, hmeta, h⟩ := bind_eq_ok h
  obtain ⟨members, hmembers, h⟩ := bind_eq_ok h
  cases h
  have hread : st.readMeta sessionId = some m := by
    unfold metaOf at hm
    cases hr : st.readMeta sessionId with
    | none => simp [hr] at hm
    | some m' =>
      simp only [hr, Except.ok.injEq] at hm
      rw [hm]
  rw [writeJson_metaToDict] at hmeta
  cases hmeta
  obtain ⟨back, rows, hback, hperm, hrows⟩ := readCheckpoints_perm (mapM_eq_ok hmembers)
  refine ⟨m, back, rows, hread, hback, hperm, ?_⟩
  have hcount : (st.history sessionId).length = rows.length := by
    rw [hback.length_eq, hperm.length_eq]
  have hmanifest : readManifest
      { manifest := .ok (buildManifest m (st.history sessionId)), sessionMeta := .ok m
        checkpoints := rows.map .ok } = .ok (buildManifest m (st.history sessionId)) := rfl
  have hmatch : assertManifestMatchesRecords (buildManifest m (st.history sessionId)) m rows
      = .ok () := by
    simp [assertManifestMatchesRecords, buildManifest, readManifestInt, hcount]
  rw [readBundle, hrows, metaFromDict_metaToDict]
  simp only [hmanifest, ok_bind, mapM_ok, hmatch]
  rfl

theorem exists_exportBundle {st : Store Datum} {sessionId : String} {m : SessionMeta}
    (hm : st.readMeta sessionId = some m)
    (hcs : ∀ c ∈ st.history sessionId, ∃ d, archived rt c = some d) :
    ∃ bundle, exportBundle rt st sessionId = .ok bundle := by
  have hmember : ∀ c ∈ st.history sessionId, ∃ member, writeCheckpointMember rt c = .ok member := by
    intro c hc
    obtain ⟨d, hd⟩ := hcs c hc
    obtain ⟨r, hr, hd⟩ := Option.bind_eq_some_iff.mp hd
    obtain ⟨a, ha, -⟩ := Option.bind_eq_some_iff.mp hd
    rw [writeCheckpointMember, hr]
    simp only [writeJson, reloaded_checkpointToDict ha, ok_bind]
    exact ⟨_, rfl⟩
  have hmembers : ∃ members, (st.history sessionId).mapM (writeCheckpointMember rt) = .ok members := by
    generalize st.history sessionId = cs at hmember
    induction cs with
    | nil => exact ⟨[], rfl⟩
    | cons c cs ih =>
      obtain ⟨member, hc⟩ := hmember c List.mem_cons_self
      obtain ⟨members, hcs⟩ := ih fun d hd => hmember d (List.mem_cons_of_mem _ hd)
      exact ⟨member :: members, by rw [List.mapM_cons, hc, hcs]; rfl⟩
  obtain ⟨members, hmembers⟩ := hmembers
  simp only [exportBundle, metaOf, hm, ok_bind, writeJson_metaToDict, hmembers]
  exact ⟨_, rfl⟩

end VidbyteSdk.Sessions
