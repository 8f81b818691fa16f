import VidbyteSdk.Agents.Infinite.Cards
import VidbyteSdk.Util.JsonlRuns

/-!
# The run journal

The four records of `InfiniteRunJournal`, their JSON form, and `_parse`, which rebuilds a journal
from the whole lines of its file. `str` of a JSON value that is not a text is a parameter.
-/

namespace VidbyteSdk.Agents.Infinite

open VidbyteSdk.Lib VidbyteSdk.Util

inductive InfiniteJournalEvent
  | runStarted
  | pairStarted
  | pairFinished
  | runFinished
  deriving DecidableEq

def InfiniteJournalEvent.value : InfiniteJournalEvent → Text
  | .runStarted => Json.word ['r', 'u', 'n', '_', 's', 't', 'a', 'r', 't', 'e', 'd']
  | .pairStarted => Json.word ['p', 'a', 'i', 'r', '_', 's', 't', 'a', 'r', 't', 'e', 'd']
  | .pairFinished => Json.word ['p', 'a', 'i', 'r', '_', 'f', 'i', 'n', 'i', 's', 'h', 'e', 'd']
  | .runFinished => Json.word ['r', 'u', 'n', '_', 'f', 'i', 'n', 'i', 's', 'h', 'e', 'd']

/-- `InfiniteJournalEvent(value)` -/
def InfiniteJournalEvent.ofValue (t : Text) : Option InfiniteJournalEvent :=
  [.runStarted, .pairStarted, .pairFinished, .runFinished].find? fun event => event.value = t

/-- One record, with what `_parse` reads of it. -/
inductive JournalRecord
  | runStarted (task : Text)
  | pairStarted (key : Text)
  | pairFinished (key : Text) (card : InfiniteResultCard)
  | runFinished (stopReason : Text) (answer : Option Text) (files : List Text)

abbrev eventKey : Text := Json.word ['e', 'v', 'e', 'n', 't']
abbrev taskKey : Text := Json.word ['t', 'a', 's', 'k']
abbrev cardKey : Text := Json.word ['c', 'a', 'r', 'd']
abbrev stopReasonKey : Text :=
  Json.word ['s', 't', 'o', 'p', '_', 'r', 'e', 'a', 's', 'o', 'n']
abbrev answerKey : Text := Json.word ['a', 'n', 's', 'w', 'e', 'r']

namespace JournalRecord

def event : JournalRecord → InfiniteJournalEvent
  | .runStarted _ => .runStarted
  | .pairStarted _ => .pairStarted
  | .pairFinished _ _ => .pairFinished
  | .runFinished _ _ _ => .runFinished

def fields (runId : Text) : JournalRecord → Record
  | .runStarted task => [(runKey, .str runId), (taskKey, .str task)]
  | .pairStarted key => [(keyKey, .str key)]
  | .pairFinished key card => [(keyKey, .str key), (cardKey, .obj (cardRecord card))]
  | .runFinished stopReason answer files =>
    [(stopReasonKey, .str stopReason), (answerKey, (answer.map .str).getD .null),
      (filesKey, .arr (files.map .str))]

/-- The mapping `_append` hands to the file. -/
def json (runId stamp : Text) (record : JournalRecord) : Record :=
  (eventKey, .str record.event.value) :: (atKey, .str stamp) :: record.fields runId

end JournalRecord

/-- `str(value)` -/
def strOf (pyStr : Json → Text) : Json → Text
  | .str t => t
  | j => pyStr j

/-- The record on one line, or `none` where reading it raises. -/
def recordOfJson (pyStr : Json → Text) : Json → Option JournalRecord
  | .obj record => do
    match ← ((record.lookup eventKey).bind asText).bind InfiniteJournalEvent.ofValue with
    | .runStarted =>
      let task ← record.lookup taskKey
      some (.runStarted (strOf pyStr task))
    | .pairStarted =>
      let key ← record.lookup keyKey
      some (.pairStarted (strOf pyStr key))
    | .pairFinished =>
      let card ← (record.lookup cardKey).bind cardOfJson
      let key ← record.lookup keyKey
      some (.pairFinished (strOf pyStr key) card)
    | .runFinished =>
      let stopReason ← record.lookup stopReasonKey
      let answer ← asOptionalText ((record.lookup answerKey).getD .null)
      let files ← asTexts ((record.lookup filesKey).getD (.arr []))
      some (.runFinished (strOf pyStr stopReason) answer files)
  | _ => none

structure JournalContents where
  started : List Text
  cards : List (Text × InfiniteResultCard)
  stopReason : Option Text
  answer : Option Text
  rootFiles : List Text

structure InfiniteRunJournal extends JournalContents where
  task : Text

namespace JournalContents

def empty : JournalContents := ⟨[], [], none, none, []⟩

def apply (contents : JournalContents) : JournalRecord → JournalContents
  | .runStarted _ => contents
  | .pairStarted key => { contents with started := contents.started ++ [key] }
  | .pairFinished key card =>
    { contents with cards := upsert Prod.fst (key, card) contents.cards }
  | .runFinished stopReason answer files =>
    { contents with
      stopReason := some stopReason
      answer := answer
      rootFiles := files }

def ofRecords (records : List JournalRecord) : JournalContents := records.foldl apply empty

/-- `finished(key)` -/
def finished (contents : JournalContents) (key : Text) : Option InfiniteResultCard :=
  (contents.cards.find? fun row => row.1 = key).map Prod.snd

/-- `interrupted`: the keys that started and did not finish, each once. -/
def interrupted (contents : JournalContents) : List Text :=
  upsertAll id (contents.started.filter fun key => (contents.finished key).isNone)

def infiniteMinAgents : Nat := 2

def agentsStarted (contents : JournalContents) : Nat := infiniteMinAgents * contents.started.length

end JournalContents

/-- The task of the last `run_started` record. -/
def taskOf (records : List JournalRecord) : Option Text :=
  records.foldl (fun task record =>
    match record with
    | .runStarted task => some task
    | _ => task) none

inductive JournalProblem
  | noRun
  | badRecord (line : Nat)
  | noTask
  | finished
  deriving DecidableEq

/-- The loop of `_parse`, from the line with this number on. -/
def parseLines (pyStr : Json → Text) : Nat → List Text → Except JournalProblem (List JournalRecord)
  | _, [] => .ok []
  | number, line :: rest =>
    if Text.isBlank line then parseLines pyStr (number + 1) rest
    else
      match (Json.loads line).bind (recordOfJson pyStr) with
      | none => .error (.badRecord number)
      | some record => (parseLines pyStr (number + 1) rest).map (record :: ·)

/-- `_parse` -/
def parse (pyStr : Json → Text) (text : Text) : Except JournalProblem InfiniteRunJournal :=
  match parseLines pyStr 1 (lines text) with
  | .error problem => .error problem
  | .ok records =>
    match taskOf records with
    | none => .error .noTask
    | some task => .ok ⟨JournalContents.ofRecords records, task⟩

/-- `find` of this run, by its id; a finished run is refused. -/
def find (pyStr : Json → Text) (log : AppendOnlyJsonl) :
    Except JournalProblem (InfiniteRunJournal × AppendOnlyJsonl) :=
  match log.read with
  | none => .error .noRun
  | some (text, log) =>
    match parse pyStr text with
    | .error problem => .error problem
    | .ok journal => if journal.stopReason.isSome then .error .finished else .ok (journal, log)

/-! ### Reading a written record -/

namespace JournalRecord

def readBack : JournalRecord → JournalRecord
  | .runStarted task => .runStarted (Json.joinPairs task)
  | .pairStarted key => .pairStarted key
  | .pairFinished key card => .pairFinished key card.readBack
  | .runFinished stopReason answer files =>
    .runFinished (Json.joinPairs stopReason) (answer.map Json.joinPairs)
      (files.map Json.joinPairs)

def OfPair : JournalRecord → Prop
  | .pairStarted key => ∃ pair : PairKey, key = pair.text
  | .pairFinished key _ => ∃ pair : PairKey, key = pair.text
  | _ => True

end JournalRecord

theorem normal_text (t : Text) : Json.normal true (.str t) = .str (Json.joinPairs t) :=
  Json.normal_str t

theorem normal_optionalText (t : Option Text) :
    Json.normal true ((t.map .str).getD .null) = ((t.map Json.joinPairs).map .str).getD .null := by
  cases t with
  | none => rfl
  | some t => exact normal_text t

theorem normal_pairKey {key : Text} (h : ∃ pair : PairKey, key = pair.text) :
    Json.normal true (.str key) = .str key := by
  obtain ⟨pair, rfl⟩ := h
  rw [normal_text, joinPairs_pairKey]

theorem ofValue_value_event (event : InfiniteJournalEvent) :
    InfiniteJournalEvent.ofValue event.value = some event := by
  cases event <;> decide

theorem joinPairs_value_event (event : InfiniteJournalEvent) :
    Json.joinPairs event.value = event.value := by
  cases event <;> rfl

def InfiniteJournalEvent.fieldNames : InfiniteJournalEvent → List Text
  | .runStarted => [eventKey, atKey, runKey, taskKey]
  | .pairStarted => [eventKey, atKey, keyKey]
  | .pairFinished => [eventKey, atKey, keyKey, cardKey]
  | .runFinished => [eventKey, atKey, stopReasonKey, answerKey, filesKey]

theorem names_json (record : JournalRecord) (runId stamp : Text) :
    (record.json runId stamp).map Prod.fst = record.event.fieldNames := by
  cases record <;> rfl

theorem normal_json {record : JournalRecord} (h : record.OfPair) (runId stamp : Text) :
    Json.normal true (.obj (record.json runId stamp))
      = .obj (record.readBack.json (Json.joinPairs runId) (Json.joinPairs stamp)) := by
  have hkeys : (record.event.fieldNames.all fun k => Json.readBack true k = k) = true := by
    cases record.event <;> decide
  have hnodup : ((record.json runId stamp).map Prod.fst).Nodup := by
    rw [names_json]
    cases record.event <;> decide
  rw [Json.normal_obj hnodup]
  · cases record with
    | runStarted task =>
      simp only [JournalRecord.json, JournalRecord.fields, JournalRecord.event,
        JournalRecord.readBack, List.map_cons, List.map_nil, normal_text, joinPairs_value_event]
    | pairStarted key =>
      simp only [JournalRecord.json, JournalRecord.fields, JournalRecord.event,
        JournalRecord.readBack, List.map_cons, List.map_nil, normal_pairKey h]
      simp only [normal_text, joinPairs_value_event]
    | pairFinished key card =>
      simp only [JournalRecord.json, JournalRecord.fields, JournalRecord.event,
        JournalRecord.readBack, List.map_cons, List.map_nil, normal_pairKey h, normal_cardRecord]
      simp only [normal_text, joinPairs_value_event]
    | runFinished stopReason answer files =>
      simp only [JournalRecord.json, JournalRecord.fields, JournalRecord.event,
        JournalRecord.readBack, List.map_cons, List.map_nil, normal_text, normal_optionalText,
        normal_texts, joinPairs_value_event]
  · intro m hm
    have hmem : m.1 ∈ record.event.fieldNames :=
      names_json record runId stamp ▸ List.mem_map_of_mem hm
    exact of_decide_eq_true (List.all_eq_true.mp hkeys m.1 hmem)

theorem recordOfJson_json (pyStr : Json → Text) (record : JournalRecord) (runId stamp : Text) :
    recordOfJson pyStr (.obj (record.json runId stamp)) = some record := by
  have hevent : (record.json runId stamp).lookup eventKey = some (.str record.event.value) := rfl
  cases record with
  | runStarted task =>
    have htask : ((JournalRecord.runStarted task).json runId stamp).lookup taskKey
        = some (.str task) := rfl
    simp only [recordOfJson, hevent, htask, asText, ofValue_value_event, JournalRecord.event,
      Option.bind_some, Option.bind_eq_bind, strOf]
  | pairStarted key =>
    have hkey : ((JournalRecord.pairStarted key).json runId stamp).lookup keyKey
        = some (.str key) := rfl
    simp only [recordOfJson, hevent, hkey, asText, ofValue_value_event, JournalRecord.event,
      Option.bind_some, Option.bind_eq_bind, strOf]
  | pairFinished key card =>
    have hkey : ((JournalRecord.pairFinished key card).json runId stamp).lookup keyKey
        = some (.str key) := rfl
    have hcard : ((JournalRecord.pairFinished key card).json runId stamp).lookup cardKey
        = some (.obj (cardRecord card)) := rfl
    simp only [recordOfJson, hevent, hkey, hcard, cardOfJson_cardRecord, asText,
      ofValue_value_event, JournalRecord.event, Option.bind_some, Option.bind_eq_bind, strOf]
  | runFinished stopReason answer files =>
    have hreason : ((JournalRecord.runFinished stopReason answer files).json runId stamp).lookup
        stopReasonKey = some (.str stopReason) := rfl
    have hanswer : ((JournalRecord.runFinished stopReason answer files).json runId stamp).lookup
        answerKey = some ((answer.map .str).getD .null) := rfl
    have hfiles : ((JournalRecord.runFinished stopReason answer files).json runId stamp).lookup
        filesKey = some (.arr (files.map .str)) := rfl
    simp only [recordOfJson, hevent, hreason, hanswer, hfiles, asText, asTexts, mapM_asText,
      asOptionalText_of, ofValue_value_event, JournalRecord.event, Option.bind_some,
      Option.bind_eq_bind, Option.getD_some, strOf]

theorem isBlank_recordText (record : Record) : Text.isBlank (recordText record) = false := by
  obtain ⟨u, hu⟩ := recordText_start record
  have hbrace : CodePoint.isSpace Json.leftBrace = false := by decide
  rw [hu, Text.isBlank, List.all_cons, hbrace, Bool.false_and]

theorem recordOfJson_loads (pyStr : Json → Text) {record : JournalRecord} (h : record.OfPair)
    (runId stamp : Text) :
    (Json.loads (recordText (record.json runId stamp))).bind (recordOfJson pyStr)
      = some record.readBack := by
  rw [loads_recordText, Option.bind_some, normal_json h, recordOfJson_json]

theorem parseLines_recordTexts (pyStr : Json → Text) (number : Nat) {records : List JournalRecord}
    {completed : List Record} {runId : Text} (hpair : ∀ record ∈ records, record.OfPair)
    (hwritten : List.Forall₂ (fun record json => ∃ stamp, json = record.json runId stamp) records
      completed) :
    parseLines pyStr number (completed.map recordText)
      = .ok (records.map JournalRecord.readBack) := by
  induction hwritten generalizing number with
  | nil => rfl
  | @cons record json records completed hrecord hrest ih =>
    obtain ⟨stamp, rfl⟩ := hrecord
    have hline := recordOfJson_loads pyStr (hpair record List.mem_cons_self) runId stamp
    have hrest := ih (number + 1) fun record hmem => hpair record (List.mem_cons_of_mem _ hmem)
    rw [List.map_cons, parseLines, isBlank_recordText, hline]
    simp only [Bool.false_eq_true, if_false, hrest]
    rfl

/-! ### What the records say -/

/-- The keys of the `pair_started` records, in order. -/
def startedKeys (records : List JournalRecord) : List Text :=
  records.filterMap fun record =>
    match record with
    | .pairStarted key => some key
    | _ => none

def JournalRecord.cardFor (key : Text) : JournalRecord → Option InfiniteResultCard
  | .pairFinished k card => if k = key then some card else none
  | _ => none

/-- The card of the last `pair_finished` record of a key. -/
def lastCard (records : List JournalRecord) (key : Text) : Option InfiniteResultCard :=
  (records.filterMap (JournalRecord.cardFor key)).getLast?

variable {records : List JournalRecord} {record : JournalRecord} {key : Text}

theorem startedKeys_append (records others : List JournalRecord) :
    startedKeys (records ++ others) = startedKeys records ++ startedKeys others :=
  List.filterMap_append

theorem mem_startedKeys : key ∈ startedKeys records ↔ .pairStarted key ∈ records := by
  rw [startedKeys, List.mem_filterMap]
  constructor
  · rintro ⟨record, hmem, hkey⟩
    cases record <;> simp_all
  · exact fun hmem => ⟨_, hmem, rfl⟩

theorem lastCard_concat (records : List JournalRecord) (record : JournalRecord) (key : Text) :
    lastCard (records ++ [record]) key
      = (record.cardFor key).or (lastCard records key) := by
  unfold lastCard
  rw [List.filterMap_append, List.getLast?_append]
  cases hcard : record.cardFor key <;> simp [hcard]

namespace JournalContents

theorem ofRecords_concat (records : List JournalRecord) (record : JournalRecord) :
    ofRecords (records ++ [record]) = (ofRecords records).apply record :=
  List.foldl_append

theorem started_ofRecords (records : List JournalRecord) :
    (ofRecords records).started = startedKeys records := by
  induction records using List.reverseRecOn with
  | nil => rfl
  | append_singleton records record ih =>
    rw [ofRecords_concat, startedKeys_append, ← ih]
    cases record <;> simp [apply, startedKeys]

theorem finished_apply (contents : JournalContents) (record : JournalRecord) (key : Text) :
    (contents.apply record).finished key = (record.cardFor key).or (contents.finished key) := by
  cases record with
  | runStarted task => rfl
  | pairStarted k => rfl
  | runFinished stopReason answer files => rfl
  | pairFinished k card =>
    unfold finished
    show ((upsert Prod.fst (k, card) contents.cards).find? fun row => row.1 = key).map Prod.snd = _
    rw [find?_upsert, JournalRecord.cardFor]
    by_cases hk : k = key <;> simp [hk]

theorem finished_ofRecords (records : List JournalRecord) (key : Text) :
    (ofRecords records).finished key = lastCard records key := by
  induction records using List.reverseRecOn with
  | nil => rfl
  | append_singleton records record ih =>
    rw [ofRecords_concat, finished_apply, lastCard_concat, ih]

def readBack (contents : JournalContents) : JournalContents where
  started := contents.started
  cards := contents.cards.map fun row => (row.1, row.2.readBack)
  stopReason := contents.stopReason.map Json.joinPairs
  answer := contents.answer.map Json.joinPairs
  rootFiles := contents.rootFiles.map Json.joinPairs

theorem readBack_readBack (contents : JournalContents) :
    contents.readBack.readBack = contents.readBack := by
  simp [readBack, InfiniteResultCard.readBack_readBack, Json.joinPairs_joinPairs, Function.comp_def]

theorem readBack_apply (contents : JournalContents) (record : JournalRecord) :
    (contents.apply record).readBack = contents.readBack.apply record.readBack := by
  cases record with
  | runStarted task => rfl
  | pairStarted key => rfl
  | runFinished stopReason answer files => rfl
  | pairFinished key card =>
    have hcards : (upsert Prod.fst (key, card) contents.cards).map (fun row => (row.1, row.2.readBack))
        = upsert Prod.fst (key, card.readBack)
          (contents.cards.map fun row => (row.1, row.2.readBack)) :=
      map_upsert fun _ _ => Iff.rfl
    simp only [apply, readBack, JournalRecord.readBack, hcards]

theorem ofRecords_readBack (records : List JournalRecord) :
    ofRecords (records.map JournalRecord.readBack) = (ofRecords records).readBack := by
  induction records using List.reverseRecOn with
  | nil => rfl
  | append_singleton records record ih =>
    rw [List.map_append, List.map_singleton, ofRecords_concat, ofRecords_concat, ih, readBack_apply]

theorem finished_readBack (contents : JournalContents) (key : Text) :
    contents.readBack.finished key = (contents.finished key).map InfiniteResultCard.readBack := by
  unfold finished readBack
  rw [List.find?_map, Option.map_map, Option.map_map]
  rfl

end JournalContents

theorem taskOf_concat (records : List JournalRecord) (record : JournalRecord) :
    taskOf (records ++ [record])
      = match record with
        | .runStarted task => some task
        | _ => taskOf records :=
  List.foldl_append

theorem isSome_taskOf : (taskOf records).isSome = true ↔ ∃ task, .runStarted task ∈ records := by
  induction records using List.reverseRecOn with
  | nil => simp [taskOf]
  | append_singleton records record ih =>
    rw [taskOf_concat]
    cases record <;> simp [ih]

theorem isSome_stopReason :
    (JournalContents.ofRecords records).stopReason.isSome = true
      ↔ ∃ stopReason answer files, .runFinished stopReason answer files ∈ records := by
  induction records using List.reverseRecOn with
  | nil => simp [JournalContents.ofRecords, JournalContents.empty]
  | append_singleton records record ih =>
    rw [JournalContents.ofRecords_concat]
    cases record with
    | runFinished stopReason answer files =>
      refine iff_of_true rfl ⟨stopReason, answer, files, ?_⟩
      simp
    | runStarted task => simp [JournalContents.apply, ih]
    | pairStarted key => simp [JournalContents.apply, ih]
    | pairFinished key card => simp [JournalContents.apply, ih]

end VidbyteSdk.Agents.Infinite
