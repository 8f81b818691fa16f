import Mathlib.Algebra.Ring.Rat
import Mathlib.Algebra.Order.Ring.Unbundled.Rat
import VidbyteSdk.Lib.Words

/-!
# The required-sequence check

The numbered event log of a run, what the handoff accepts as evidence for the ordered stages of the
request, and how the check reads that evidence and Jev's answers. A text of the source that only
prompts read (a stage's name, a call's arguments) is left out.
-/

namespace VidbyteSdk.Agents.Jev

open Lib Lib.Json

/-- `text.strip()` -/
def strip (t : Text) : Text :=
  ((t.dropWhile CodePoint.isSpace).reverse.dropWhile CodePoint.isSpace).reverse

/-- `text.isdigit()`, for ASCII text. -/
def isdigit (t : Text) : Bool := !t.isEmpty && t.all CodePoint.isDigit

/-- `int(text)`, for ASCII digits with or without a sign; `none` is `ValueError`. -/
def int? (t : Text) : Option Int :=
  match t with
  | 0x2D :: digits => if isdigit digits then some (-(ofDigits digits : Int)) else none
  | 0x2B :: digits => if isdigit digits then some (ofDigits digits) else none
  | digits => if isdigit digits then some (ofDigits digits) else none

/-! ### The event log -/

structure ToolCallContext where
  toolName : Text
  iterationCount : Option Int
  deriving DecidableEq

structure JevContinuationEvidence where
  responses : List Text
  toolCalls : List ToolCallContext

inductive LoggedEvent
  | user (request : Text)
  | assistant (iteration : ℕ) (response : Text)
  | tool (call : ToolCallContext)
  deriving DecidableEq

structure LogLine where
  number : ℕ
  event : LoggedEvent
  deriving DecidableEq

/-- `f"E{number}"` -/
def eventId (number : ℕ) : Text := 0x45 :: digitsOf number

def isDoneToolName : Text := word ['i', 's', 'D', 'o', 'n', 'e']

/-- `call.iteration_count or JEV_EVENT_LOG_INITIAL_ITERATION` -/
def ToolCallContext.iteration (call : ToolCallContext) : Int := call.iterationCount.getD 0

def logged (calls : List ToolCallContext) : List ToolCallContext :=
  calls.filter fun call => call.toolName ≠ isDoneToolName

def callsAt (calls : List ToolCallContext) (iteration : ℕ) : List LoggedEvent :=
  ((logged calls).filter fun call => call.iteration = (iteration : Int)).map .tool

def lastIteration (segment : JevContinuationEvidence) : ℕ :=
  max segment.responses.length
    (((logged segment.toolCalls).map ToolCallContext.iteration).foldr max 0).toNat

def segmentEvents (segment : JevContinuationEvidence) : List LoggedEvent :=
  callsAt segment.toolCalls 0 ++
    (List.range (lastIteration segment + 1)).flatMap fun iteration =>
      (match segment.responses[iteration]? with
        | some response =>
          if Text.isBlank response then [] else [.assistant (iteration + 1) response]
        | none => []) ++ callsAt segment.toolCalls (iteration + 1)

def appendLine (log : List LogLine × ℕ) (event : LoggedEvent) : List LogLine × ℕ :=
  (log.1 ++ [⟨log.2, event⟩], log.2 + 1)

def appendSegment (log : List LogLine × ℕ) (segment : JevContinuationEvidence) :
    List LogLine × ℕ :=
  (segmentEvents segment).foldl appendLine log

/-- `JevRunEventLog.from_segments`: its lines. -/
def runEventLog (request : Text) (segments : List JevContinuationEvidence) : List LogLine :=
  (segments.foldl appendSegment ([⟨1, .user request⟩], 2)).1

def eventIds (log : List LogLine) : List Text :=
  (log.filter fun line => match line.event with
    | .user _ => false
    | _ => true).map fun line => eventId line.number

/-! ### The request's stages -/

structure JevSequenceStage where
  id : Text
  dependsOnPrevious : Bool
  deriving DecidableEq

/-- The ordered stages of a request, as `_required_sequence_record` leaves them: a sequence that does
not gate the run has none. -/
structure JevRequiredSequence where
  active : Bool
  stages : List JevSequenceStage
  unique : (stages.map (·.id)).Nodup
  inactive : active = false → stages = []

def JevRequiredSequence.ids (sequence : JevRequiredSequence) : List Text :=
  sequence.stages.map (·.id)

/-! ### The handoff's evidence -/

structure JevSequenceWorkPayload where
  description : Text
  eventIds : List Text

structure JevSequenceStageEvidencePayload where
  stageId : Text
  observedWork : List JevSequenceWorkPayload
  outputsProduced : List Text
  inputsUsed : List Text
  firstEventId : Text
  lastWorkEventId : Text
  failures : List JevSequenceWorkPayload
  missingOrUncertain : List Text

structure JevRequiredSequenceEvidencePayload where
  stages : List JevSequenceStageEvidencePayload

/-- `JevText.require` -/
def requireText (t : Text) : Option Text := if Text.isBlank t then none else some t

structure JevSequenceWork where
  description : Text
  eventIds : List Text
  described : Text.isBlank description = false
  cited : ∀ id ∈ eventIds, Text.isBlank id = false

def JevSequenceWork.make (description : Text) (eventIds : List Text) : Option JevSequenceWork :=
  if h : Text.isBlank description = false ∧ ∀ id ∈ eventIds, Text.isBlank id = false then
    some ⟨description, eventIds, h.1, h.2⟩
  else none

structure JevSequenceStageEvidence where
  stageId : Text
  observedWork : List JevSequenceWork
  outputsProduced : List Text
  inputsUsed : List Text
  firstEventId : Text
  lastWorkEventId : Text
  failures : List JevSequenceWork
  missingOrUncertain : List Text

def citedBy (works : List JevSequenceWork) : List Text := works.flatMap (·.eventIds)

def JevSequenceStageEvidence.cited (item : JevSequenceStageEvidence) : List Text :=
  citedBy item.observedWork

structure JevRequiredSequenceEvidence where
  stages : List JevSequenceStageEvidence

/-- `first.removeprefix("E")` -/
def removePrefix (t : Text) : Text :=
  match t with
  | 0x45 :: rest => rest
  | _ => t

def startsWithE (t : Text) : Bool := t.head? = some 0x45

/-- `_is_event_span` -/
def isEventSpan (first last : Text) (cited : List Text) : Bool :=
  if first ∉ cited ∨ last ∉ cited then false
  else
    match int? (removePrefix first), int? (removePrefix last) with
    | some firstPosition, some lastPosition =>
      startsWithE first && startsWithE last && decide (0 < firstPosition) &&
        decide (firstPosition ≤ lastPosition)
    | _, _ => false

def workRecords (works : List JevSequenceWorkPayload) : Option (List JevSequenceWork) :=
  works.mapM fun work => JevSequenceWork.make (strip work.description) work.eventIds

/-- The span of a stage's work: declared exactly where there is work, and cited by it. -/
def acceptsSpan (item : JevSequenceStageEvidencePayload) (observedCited eventIds : List Text) :
    Bool :=
  if item.observedWork.isEmpty then item.firstEventId.isEmpty && item.lastWorkEventId.isEmpty
  else
    decide (item.firstEventId ∈ eventIds) && decide (item.lastWorkEventId ∈ eventIds) &&
      isEventSpan item.firstEventId item.lastWorkEventId observedCited

/-- `_sequence_stage_evidence_record`; `none` is a refusal or an error that refuses the handoff. -/
def sequenceStageEvidenceRecord (item : JevSequenceStageEvidencePayload) (expected : List Text)
    (eventIds : List Text) : Option JevSequenceStageEvidence :=
  if item.stageId ∉ expected then none
  else
    match workRecords item.observedWork, workRecords item.failures with
    | some observed, some failures =>
      if (observed ++ failures).any fun work => work.eventIds.isEmpty then none
      else if ¬ ∀ id ∈ citedBy observed ++ citedBy failures, id ∈ eventIds then none
      else if acceptsSpan item (citedBy observed) eventIds then do
        let outputs ← item.outputsProduced.mapM fun value => requireText (strip value)
        let inputs ← item.inputsUsed.mapM fun value => requireText (strip value)
        let missing ← item.missingOrUncertain.mapM fun value => requireText (strip value)
        some ⟨item.stageId, observed, outputs, inputs, item.firstEventId, item.lastWorkEventId,
          failures, missing⟩
      else none
    | _, _ => none

def collectEntries (expected eventIds : List Text) :
    List JevSequenceStageEvidence → List JevSequenceStageEvidencePayload →
      Option (List JevSequenceStageEvidence)
  | entries, [] => some entries
  | entries, item :: items =>
    if item.stageId ∈ entries.map (·.stageId) then none
    else
      match sequenceStageEvidenceRecord item expected eventIds with
      | none => none
      | some evidence => collectEntries expected eventIds (entries ++ [evidence]) items

def entryOf (entries : List JevSequenceStageEvidence) (id : Text) :
    Option JevSequenceStageEvidence :=
  entries.find? fun item => item.stageId = id

/-- `_required_sequence_evidence_record`; `none` refuses the handoff. -/
def requiredSequenceEvidenceRecord (payload : Option JevRequiredSequenceEvidencePayload)
    (sequence : Option JevRequiredSequence) (eventIds : List Text) (required : Bool) :
    Option (Option JevRequiredSequenceEvidence) :=
  match payload with
  | none => if required then none else some none
  | some payload =>
    let expected := match sequence with
      | some sequence => if sequence.active then sequence.ids else []
      | none => []
    match collectEntries expected eventIds [] payload.stages with
    | none => none
    | some entries =>
      if ∀ id ∈ expected, id ∈ entries.map (·.stageId) then
        some (some ⟨expected.filterMap (entryOf entries)⟩)
      else none

/-! ### Jev's answers -/

inductive JevQuestionType
  | choice
  | score
  | noul
  deriving DecidableEq

structure JevAnswer where
  questionType : JevQuestionType
  probabilities : List (Text × ℚ)

def jevNoulTrue : Text := word ['t', 'r', 'u', 'e']

/-- `answer.probabilities.get(JEV_NOUL_TRUE, 0.0)` -/
def JevAnswer.probabilityOfTrue (answer : JevAnswer) : ℚ :=
  (answer.probabilities.lookup jevNoulTrue).getD 0

/-- `DecisionModelHelper.score_noul` of one answer, as whether it is there and passed. -/
def JevAnswer.meets (threshold : ℚ) (answer : JevAnswer) : Bool :=
  decide (answer.questionType = .noul) && decide (threshold ≤ answer.probabilityOfTrue)

structure DecisionModelResponse where
  answers : List (Text × JevAnswer)

def workShown : Text :=
  word "required_sequence.work_shown.".toList

def usesPreviousOutput : Text :=
  word "required_sequence.uses_previous_output.".toList

/-- `work_question.name(stage.id)` -/
def workShownName (id : Text) : Text := workShown ++ id

/-- `previous_question.name(stage.id)` -/
def usesPreviousOutputName (id : Text) : Text := usesPreviousOutput ++ id

/-! ### The check -/

/-- `_event_position` -/
def eventPosition (id : Text) : Int :=
  if startsWithE id && isdigit (id.drop 1) then (int? (id.drop 1)).getD 0 else 0

structure StageResult where
  incomplete : Bool
  available : Bool
  answers : List (Text × JevAnswer)
  probabilities : List ℚ

def previousWork (previous : Option JevSequenceStageEvidence) : Option JevSequenceStageEvidence :=
  previous.filter fun previous => !previous.observedWork.isEmpty

/-- Whether the span of a stage's work starts at or before the end of the previous stage's. -/
def isOutOfOrder (item : JevSequenceStageEvidence) (previous : Option JevSequenceStageEvidence) :
    Bool :=
  match previousWork previous with
  | none => false
  | some previous =>
    let current := eventPosition item.firstEventId
    let last := eventPosition previous.lastWorkEventId
    decide (current ≤ 0) || decide (last ≤ 0) || decide (current ≤ last)

def previousOutputResult (stage : JevSequenceStage) (previous : Option JevSequenceStageEvidence)
    (decision : DecisionModelResponse) (threshold : ℚ) (answers : List (Text × JevAnswer))
    (probabilities : List ℚ) : StageResult :=
  if stage.dependsOnPrevious && (previousWork previous).isSome then
    match decision.answers.lookup (usesPreviousOutputName stage.id) with
    | none => ⟨false, false, answers, probabilities⟩
    | some answer =>
      ⟨!answer.meets threshold, true,
        answers ++ [(stage.id ++ word ".uses_previous_output".toList, answer)],
        probabilities ++ [answer.probabilityOfTrue]⟩
  else ⟨false, true, answers, probabilities⟩

/-- `_required_sequence_stage_result` -/
def requiredSequenceStageResult (stage : JevSequenceStage) (item : Option JevSequenceStageEvidence)
    (previous : Option JevSequenceStageEvidence) (decision : Option DecisionModelResponse)
    (threshold : ℚ) : StageResult :=
  match item.filter fun item => !item.observedWork.isEmpty with
  | none => ⟨true, true, [], []⟩
  | some item =>
    if isOutOfOrder item previous then ⟨true, true, [], []⟩
    else
      match decision with
      | none => ⟨false, true, [], []⟩
      | some decision =>
        match decision.answers.lookup (workShownName stage.id) with
        | none => ⟨false, false, [], []⟩
        | some answer =>
          let answers := [(stage.id ++ word ".work_shown".toList, answer)]
          if answer.meets threshold then
            previousOutputResult stage previous decision threshold answers
              [answer.probabilityOfTrue]
          else ⟨true, true, answers, [answer.probabilityOfTrue]⟩

structure JevDoneResult where
  score : Option ℚ
  passed : Bool
  answers : List (Text × JevAnswer)
  incomplete : List Text
  available : Bool

def withPrevious (stages : List JevSequenceStage) :
    List (Option JevSequenceStage × JevSequenceStage) :=
  (none :: stages.map some).zip stages

def stageResults (sequence : JevRequiredSequence) (evidence : JevRequiredSequenceEvidence)
    (decision : Option DecisionModelResponse) (threshold : ℚ) : List (Text × StageResult) :=
  (withPrevious sequence.stages).map fun (previous, stage) =>
    (stage.id, requiredSequenceStageResult stage (entryOf evidence.stages stage.id)
      (previous.bind fun previous => entryOf evidence.stages previous.id) decision threshold)

/-- `sum(probabilities) / len(probabilities)` -/
def mean (probabilities : List ℚ) : Option ℚ :=
  if probabilities.isEmpty then none else some (probabilities.sum / probabilities.length)

def combineStages (results : List (Text × StageResult)) (asks : Bool) : JevDoneResult :=
  let available := asks && results.all fun r => r.2.available
  let incomplete := upsertAll id ((results.filter fun r => r.2.incomplete).map Prod.fst)
  if !available && incomplete.isEmpty then ⟨none, true, [], [], false⟩
  else
    ⟨mean (results.flatMap fun r => r.2.probabilities), incomplete.isEmpty,
      dictOf (results.flatMap fun r => r.2.answers), incomplete, available⟩

/-- `_required_sequence` -/
def requiredSequence (state : Option JevRequiredSequence)
    (evidence : Option JevRequiredSequenceEvidence) (decision : Option DecisionModelResponse)
    (threshold : ℚ) : JevDoneResult :=
  match state.filter fun state => state.active && !state.stages.isEmpty with
  | none => ⟨none, true, [], [], true⟩
  | some state =>
    match evidence with
    | none => ⟨none, true, [], [], false⟩
    | some evidence =>
      combineStages (stageResults state evidence decision threshold)
        (decision.isSome || !(evidence.stages.any fun item => !item.observedWork.isEmpty))

end VidbyteSdk.Agents.Jev
