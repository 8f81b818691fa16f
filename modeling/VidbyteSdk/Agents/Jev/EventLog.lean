import VidbyteSdk.Agents.Jev.RequiredSequence
import VidbyteSdk.Lib.Dicts

/-!
# The Jev event log

`JevRunEventLog` numbers the responses and calls of a run, one segment after the other, and
`JevRunState` records the segments: at each finish attempt what the main loop added since the last one, with
its iterations counted from there, and between two attempts what a continuation observed. The texts of a call
(its state, its arguments as JSON) are those that its line shows.
-/

namespace VidbyteSdk.Agents.Jev.JevRunEventLog

open Lib Lib.Json

/-- A call of the run, with what its line shows: its state, its arguments, and of its result the status and the
output. -/
structure RecordedCall extends ToolCallContext where
  state : Text
  arguments : Text
  result : Option (Text × Text)
  deriving DecidableEq

/-- A stretch of a run and where it comes from; a whole run has no source. -/
structure EvidenceSegment where
  source : Option Text
  responses : List Text
  toolCalls : List RecordedCall
  deriving DecidableEq

inductive RunEvent
  | assistant (iteration : ℕ) (response : Text)
  | tool (call : RecordedCall)
  deriving DecidableEq

structure LogEntry where
  number : ℕ
  source : Option Text
  event : RunEvent
  deriving DecidableEq

/-! ### The events of a segment -/

def shown (calls : List RecordedCall) : List RecordedCall :=
  calls.filter fun call => call.toolName ≠ isDoneToolName

/-- `by_iteration.get(iteration, ())` -/
def byIteration (calls : List RecordedCall) (iteration : ℕ) : List RunEvent :=
  ((shown calls).filter fun call => call.iteration = (iteration : Int)).map .tool

def said (responses : List Text) (index : ℕ) : List RunEvent :=
  match responses[index]? with
  | some response => if Text.isBlank response then [] else [.assistant (index + 1) response]
  | none => []

/-- `max(len(responses), max(by_iteration, default=0))` -/
def lastIteration (segment : EvidenceSegment) : ℕ :=
  max segment.responses.length
    (((shown segment.toolCalls).map fun call : RecordedCall => call.iteration).foldr max 0).toNat

def segmentEvents (segment : EvidenceSegment) : List RunEvent :=
  byIteration segment.toolCalls 0 ++ (List.range (lastIteration segment + 1)).flatMap fun iteration =>
    said segment.responses iteration ++ byIteration segment.toolCalls (iteration + 1)

/-! ### The log -/

def appendEvent (source : Option Text) (log : List LogEntry × ℕ) (event : RunEvent) : List LogEntry × ℕ :=
  (log.1 ++ [⟨log.2, source, event⟩], log.2 + 1)

/-- `_append_segment` -/
def appendSegment (log : List LogEntry × ℕ) (segment : EvidenceSegment) : List LogEntry × ℕ :=
  (segmentEvents segment).foldl (appendEvent segment.source) log

/-- The numbered events of the segments, behind the request's. -/
def entries (segments : List EvidenceSegment) : List LogEntry := (segments.foldl appendSegment ([], 2)).1

def space : CodePoint := 0x20

/-- `"" if source is None else f"source={source} "` -/
def label : Option Text → Text
  | none => []
  | some source => lit "source=" ++ source ++ [space]

def body : RunEvent → Text
  | .assistant iteration response =>
    lit "ASSISTANT iteration=" ++ intText iteration ++ lit ": " ++ response
  | .tool call =>
    lit "TOOL " ++ call.toolName ++ lit " state=" ++ ((call.result.map Prod.fst).getD call.state)
      ++ lit ": arguments=" ++ call.arguments ++ lit " output=" ++ ((call.result.map Prod.snd).getD [])

def LogEntry.line (entry : LogEntry) : Text :=
  eventId entry.number ++ [space] ++ (label entry.source ++ body entry.event)

/-- `from_segments` -/
def fromSegments (request : Text) (segments : List EvidenceSegment) : List Text :=
  (eventId 1 ++ [space] ++ (lit "USER: " ++ request)) :: (entries segments).map LogEntry.line

/-- `from_run` -/
def fromRun (request : Text) (responses : List Text) (calls : List RecordedCall) : List Text :=
  fromSegments request [⟨none, responses, calls⟩]

/-- `event_ids`, which reads the identifiers back from the lines. -/
def eventIds (lines : List Text) : List Text :=
  lines.filterMap fun line =>
    let identifier := line.takeWhile (· ≠ space)
    let event := (line.dropWhile (· ≠ space)).drop 1
    if space ∈ line ∧ (lit "USER: ").isPrefixOf event = false then some identifier else none

/-! ### Recording the segments -/

/-- What `JevRunState` keeps of the segments. -/
structure EvidenceState where
  segments : List EvidenceSegment := []
  mainResponseCursor : ℕ := 0
  mainCallCursor : ℕ := 0
  mainSegmentNumber : ℕ := 0
  freshSegmentNumber : ℕ := 0

def renormalised (cursor : ℕ) (call : RecordedCall) : RecordedCall :=
  match call.iterationCount with
  | none => call
  | some count => { call with iterationCount := some (max 0 (count - cursor)) }

/-- `add_continuation_evidence` -/
def addContinuationEvidence (state : EvidenceState) (evidence : EvidenceSegment) : EvidenceState :=
  if evidence.source = some (lit "fresh") then
    { state with
      freshSegmentNumber := state.freshSegmentNumber + 1
      segments := state.segments
        ++ [{ evidence with source := some (lit "fresh:" ++ intText (state.freshSegmentNumber + 1 : ℕ)) }] }
  else { state with segments := state.segments ++ [evidence] }

/-- `_capture_main_evidence` -/
def captureMainEvidence (state : EvidenceState) (responses : List Text) (calls : List RecordedCall) :
    EvidenceState :=
  let newResponses := responses.drop state.mainResponseCursor
  let rawCalls := calls.drop state.mainCallCursor
  let newCalls := if state.mainResponseCursor = 0 then rawCalls
    else rawCalls.map (renormalised state.mainResponseCursor)
  let moved := { state with mainResponseCursor := responses.length, mainCallCursor := calls.length }
  if newResponses = [] ∧ newCalls = [] then moved
  else
    { moved with
      mainSegmentNumber := state.mainSegmentNumber + 1
      segments := state.segments
        ++ [⟨some (lit "main:" ++ intText (state.mainSegmentNumber + 1 : ℕ)), newResponses, newCalls⟩] }

inductive EvidenceStep
  | attempt (responses calls : ℕ)
  | continuation (evidence : EvidenceSegment)

def evidenceStep (responses : List Text) (calls : List RecordedCall) (state : EvidenceState) :
    EvidenceStep → EvidenceState
  | .attempt r c => captureMainEvidence state (responses.take r) (calls.take c)
  | .continuation evidence => addContinuationEvidence state evidence

/-- The segments that the finish attempts record, without those of the continuations. -/
def mainSegments (responses : List Text) (calls : List RecordedCall) :
    EvidenceState → List EvidenceStep → List EvidenceSegment
  | _, [] => []
  | state, .attempt r c :: steps =>
    (evidenceStep responses calls state (.attempt r c)).segments.drop state.segments.length
      ++ mainSegments responses calls (evidenceStep responses calls state (.attempt r c)) steps
  | state, .continuation evidence :: steps =>
    mainSegments responses calls (evidenceStep responses calls state (.continuation evidence)) steps

end VidbyteSdk.Agents.Jev.JevRunEventLog
