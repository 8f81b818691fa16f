import VidbyteSdk.Agents.Jev.EventLogCuts
import VidbyteSdk.Agents.Jev.SequenceOrder

/-!
# The event log of a Jev run

The log of any segments numbers every event of them once, from 2 on and in order, and `event_ids` reads back the
numbers of all its lines but the request's (`NumbersOnce`). Finish attempts leave segments whose log has the
events of the whole run, however they cut it.
-/

namespace VidbyteSdk.Agents.Jev.JevRunEventLog

open Lib Lib.Json

/-! ### Every event once -/

def RunEvent.response? : RunEvent → Option (ℕ × Text)
  | .assistant iteration response => some (iteration, response)
  | .tool _ => none

def RunEvent.call? : RunEvent → Option RecordedCall
  | .assistant _ _ => none
  | .tool call => some call

def spoken (responses : List Text) : List (ℕ × Text) :=
  ((responses.zipIdx 1).filter fun response => ¬ Text.isBlank response.1).map Prod.swap

theorem responses_said (responses : List Text) :
    ((List.range responses.length).flatMap (said responses)).filterMap RunEvent.response? = spoken responses := by
  induction responses using List.reverseRecOn with
  | nil => rfl
  | append_singleton responses response ih =>
    have hbefore : (List.range responses.length).flatMap (said (responses ++ [response]))
        = (List.range responses.length).flatMap (said responses) := by
      refine List.flatMap_congr fun index hindex => ?_
      rw [said, said, List.getElem?_append_left (List.mem_range.mp hindex)]
    have hlast : (said (responses ++ [response]) responses.length).filterMap RunEvent.response?
        = if Text.isBlank response then [] else [(responses.length + 1, response)] := by
      rw [said, List.getElem?_concat_length]
      dsimp only
      split
      · rfl
      · rfl
    rw [List.length_append, List.length_singleton, List.range_succ, List.flatMap_append, List.filterMap_append,
      hbefore, ih, List.flatMap_singleton, hlast, spoken, spoken, List.zipIdx_append, List.filter_append,
      List.map_append, List.zipIdx_singleton]
    refine congrArg _ ?_
    cases hblank : Text.isBlank response with
    | true => simp [hblank]
    | false => simp [hblank, Nat.add_comm]

theorem filterMap_response_byIteration (calls : List RecordedCall) (iteration : ℕ) :
    (byIteration calls iteration).filterMap RunEvent.response? = [] := by
  rw [byIteration, List.filterMap_map]
  exact List.filterMap_eq_nil_iff.mpr fun _ _ => rfl

theorem filterMap_call_byIteration (calls : List RecordedCall) (iteration : ℕ) :
    (byIteration calls iteration).filterMap RunEvent.call?
      = bucket (fun call : RecordedCall => call.iteration) (shown calls) iteration := by
  rw [byIteration, List.filterMap_map]
  exact List.filterMap_some

theorem filterMap_call_said (responses : List Text) (index : ℕ) :
    (said responses index).filterMap RunEvent.call? = [] := by
  unfold said
  split
  · split
    · rfl
    · rfl
  · rfl

theorem responses_segmentEvents (segment : EvidenceSegment) :
    (segmentEvents segment).filterMap RunEvent.response? = spoken segment.responses := by
  have hlength : segment.responses.length ≤ lastIteration segment := Nat.le_max_left _ _
  have hevents : ∀ iteration, (iterationEvents segment iteration).filterMap RunEvent.response?
      = (said segment.responses iteration).filterMap RunEvent.response? := by
    intro iteration
    rw [iterationEvents, List.filterMap_append, filterMap_response_byIteration, List.append_nil]
  rw [segmentEvents_eq (Nat.le_refl _), List.filterMap_append, filterMap_response_byIteration, List.nil_append,
    List.filterMap_flatMap, List.flatMap_congr fun iteration _ => hevents iteration, ← List.filterMap_flatMap,
    flatMap_range_of_empty hlength fun _ h => said_eq_nil h, responses_said]

theorem calls_segmentEvents (segment : EvidenceSegment) :
    (segmentEvents segment).filterMap RunEvent.call?
      = bucketed (fun call : RecordedCall => call.iteration) (shown segment.toolCalls)
          (lastIteration segment + 1) := by
  have hevents : ∀ iteration, (iterationEvents segment iteration).filterMap RunEvent.call?
      = bucket (fun call : RecordedCall => call.iteration) (shown segment.toolCalls) (iteration + 1) := by
    intro iteration
    rw [iterationEvents, List.filterMap_append, filterMap_call_said, List.nil_append, filterMap_call_byIteration]
  rw [segmentEvents_eq (Nat.le_refl _), List.filterMap_append, filterMap_call_byIteration,
    List.filterMap_flatMap, List.flatMap_congr fun iteration _ => hevents iteration, bucketed,
    List.range_succ_eq_map, List.flatMap_cons, List.flatMap_map]

def Counted (segment : EvidenceSegment) : Prop := ∀ call ∈ segment.toolCalls, 0 ≤ call.iteration

variable {segment : EvidenceSegment}

theorem lt_lastIteration {call : RecordedCall} (h : call ∈ shown segment.toolCalls) :
    call.iteration < ((lastIteration segment + 1 : ℕ) : ℤ) := by
  have hle := iteration_le_foldr h
  rw [lastIteration]
  omega

/-! ### The order of a segment -/

/-- The response of an iteration stands before its calls, and these before the next iteration. -/
def RunEvent.rank : RunEvent → ℤ
  | .assistant iteration _ => 2 * iteration
  | .tool call => 2 * call.iteration + 1

variable {calls : List RecordedCall} {event : RunEvent}

theorem rank_byIteration {iteration : ℕ}
    (h : event ∈ byIteration calls iteration) : event.rank = 2 * (iteration : ℤ) + 1 := by
  obtain ⟨call, hcall, rfl⟩ := List.mem_map.mp h
  rw [List.mem_filter, decide_eq_true_eq] at hcall
  rw [RunEvent.rank, hcall.2]

theorem rank_said {responses : List Text} {index : ℕ} (h : event ∈ said responses index) :
    event.rank = 2 * ((index + 1 : ℕ) : ℤ) := by
  unfold said at h
  split at h
  · split at h
    · cases h
    · rw [List.mem_singleton.mp h, RunEvent.rank]
  · cases h

theorem rank_iterationEvents {iteration : ℕ}
    (h : event ∈ iterationEvents segment iteration) :
    2 * ((iteration + 1 : ℕ) : ℤ) ≤ event.rank ∧ event.rank ≤ 2 * ((iteration + 1 : ℕ) : ℤ) + 1 := by
  rcases List.mem_append.mp h with h | h
  · have hrank := rank_said h
    omega
  · have hrank := rank_byIteration h
    omega

theorem pairwise_iterationEvents (segment : EvidenceSegment) (iteration : ℕ) :
    (iterationEvents segment iteration).Pairwise fun event later => event.rank ≤ later.rank := by
  rw [iterationEvents, List.pairwise_append]
  refine ⟨?_, ?_, ?_⟩
  · exact List.pairwise_of_forall_mem_list fun event hevent later hlater =>
      Int.le_of_eq ((rank_said hevent).trans (rank_said hlater).symm)
  · exact List.pairwise_of_forall_mem_list fun event hevent later hlater =>
      Int.le_of_eq ((rank_byIteration hevent).trans (rank_byIteration hlater).symm)
  · intro event hevent later hlater
    have hrank := rank_said hevent
    have hrank' := rank_byIteration hlater
    omega

theorem pairwise_segmentEvents (segment : EvidenceSegment) :
    (segmentEvents segment).Pairwise fun event later => event.rank ≤ later.rank := by
  rw [segmentEvents_eq (Nat.le_refl _), List.pairwise_append, List.pairwise_flatMap]
  refine ⟨?_, ⟨fun iteration _ => pairwise_iterationEvents segment iteration, ?_⟩, ?_⟩
  · exact List.pairwise_of_forall_mem_list fun event hevent later hlater =>
      Int.le_of_eq ((rank_byIteration hevent).trans (rank_byIteration hlater).symm)
  · refine List.pairwise_lt_range.imp fun {iteration next} hlt event hevent later hlater => ?_
    have hrank := rank_iterationEvents hevent
    have hrank' := rank_iterationEvents hlater
    omega
  · intro event hevent later hlater
    obtain ⟨iteration, _, hlater⟩ := List.mem_flatMap.mp hlater
    have hrank := rank_byIteration hevent
    have hrank' := rank_iterationEvents hlater
    omega

structure EachOnce (segment : EvidenceSegment) : Prop where
  responses : (segmentEvents segment).filterMap RunEvent.response? = spoken segment.responses
  calls : ((segmentEvents segment).filterMap RunEvent.call?).Perm (shown segment.toolCalls)
  callsOf : ∀ iteration : ℕ,
    ((segmentEvents segment).filterMap RunEvent.call?).filter
        (fun call : RecordedCall => call.iteration = (iteration : ℤ))
      = (shown segment.toolCalls).filter fun call : RecordedCall => call.iteration = (iteration : ℤ)
  ordered : (segmentEvents segment).Pairwise fun event later => event.rank ≤ later.rank

theorem eachOnce (h : Counted segment) : EachOnce segment := by
  refine ⟨responses_segmentEvents segment, ?_, ?_, pairwise_segmentEvents segment⟩
  · rw [calls_segmentEvents]
    exact bucketed_perm _ _ (fun call hcall => h call (List.mem_of_mem_filter hcall))
      fun call hcall => lt_lastIteration hcall
  · intro iteration
    rw [calls_segmentEvents, filter_bucketed]
    split
    · rfl
    · next hlate =>
      refine (List.filter_eq_nil_iff.mpr fun call hcall => ?_).symm
      have hlast := lt_lastIteration hcall
      rw [decide_eq_true_eq]
      omega

/-! ### The identifiers that can be cited -/

theorem space_notMem_eventId (number : ℕ) : space ∉ eventId number := by
  intro h
  rcases List.mem_cons.mp h with h | h
  · revert h
    decide
  · have hdigit := isDigit_of_mem_digitsOf h
    revert hdigit
    decide

/-- `partition` at the first space of a line. -/
theorem partition_line {identifier : Text} (rest : Text) (h : space ∉ identifier) :
    (identifier ++ [space] ++ rest).takeWhile (· ≠ space) = identifier ∧
      ((identifier ++ [space] ++ rest).dropWhile (· ≠ space)).drop 1 = rest := by
  have hall : ∀ c ∈ identifier, decide (c ≠ space) = true := by
    intro c hc
    rw [decide_eq_true_eq]
    rintro rfl
    exact h hc
  rw [List.append_assoc, List.singleton_append]
  constructor
  · rw [List.takeWhile_append_of_pos hall, List.takeWhile_cons_of_neg (by decide), List.append_nil]
  · rw [List.dropWhile_append_of_pos hall, List.dropWhile_cons_of_neg (by decide)]
    rfl

theorem body_not_user (source : Option Text) (event : RunEvent) :
    (lit "USER: ").isPrefixOf (label source ++ body event) = false := by
  cases source with
  | none =>
    cases event with
    | assistant iteration response => rfl
    | tool call => rfl
  | some source => rfl

theorem eventIds_fromSegments (request : Text) (segments : List EvidenceSegment) :
    eventIds (fromSegments request segments) = (entries segments).map fun entry => eventId entry.number := by
  have huser : (lit "USER: ").isPrefixOf (lit "USER: " ++ request) = true :=
    List.isPrefixOf_iff_prefix.mpr (List.prefix_append _ _)
  have hrequest := partition_line (lit "USER: " ++ request) (space_notMem_eventId 1)
  rw [eventIds, fromSegments, List.filterMap_cons_none]
  · rw [List.filterMap_map, ← List.filterMap_eq_map]
    refine List.filterMap_congr fun entry _ => ?_
    obtain ⟨hid, hrest⟩ :=
      partition_line (label entry.source ++ body entry.event) (space_notMem_eventId entry.number)
    have hspace : space ∈ entry.line := by simp [LogEntry.line]
    rw [Function.comp_apply]
    dsimp only
    rw [LogEntry.line] at hspace ⊢
    rw [hid, hrest, if_pos ⟨hspace, body_not_user entry.source entry.event⟩]
    rfl
  · dsimp only
    rw [hrequest.2, huser, if_neg (by simp)]

/-! ### The log that the sequence check reads -/

/-- A segment and an event as the required-sequence check reads them. -/
def EvidenceSegment.read (segment : EvidenceSegment) : JevContinuationEvidence :=
  ⟨segment.responses, segment.toolCalls.map RecordedCall.toToolCallContext⟩

def RunEvent.read : RunEvent → LoggedEvent
  | .assistant iteration response => .assistant iteration response
  | .tool call => .tool call.toToolCallContext

def LogEntry.read (entry : LogEntry) : LogLine := ⟨entry.number, entry.event.read⟩

theorem logged_read (calls : List RecordedCall) :
    logged (calls.map RecordedCall.toToolCallContext) = (shown calls).map RecordedCall.toToolCallContext := by
  rw [logged, List.filter_map]
  rfl

theorem callsAt_read (calls : List RecordedCall) (iteration : ℕ) :
    callsAt (calls.map RecordedCall.toToolCallContext) iteration
      = (byIteration calls iteration).map RunEvent.read := by
  rw [callsAt, logged_read, List.filter_map, List.map_map, byIteration, List.map_map]
  rfl

theorem segmentEvents_read (segment : EvidenceSegment) :
    Jev.segmentEvents segment.read = (segmentEvents segment).map RunEvent.read := by
  have hlast : Jev.lastIteration segment.read = lastIteration segment := by
    rw [Jev.lastIteration, EvidenceSegment.read, logged_read, List.map_map]
    rfl
  rw [Jev.segmentEvents, hlast, segmentEvents, List.map_append, List.map_flatMap]
  refine congrArg₂ (· ++ ·) (callsAt_read _ _) (List.flatMap_congr fun iteration _ => ?_)
  rw [List.map_append]
  refine congrArg₂ (· ++ ·) ?_ (callsAt_read _ _)
  unfold said
  dsimp only [EvidenceSegment.read]
  cases segment.responses[iteration]? with
  | none => rfl
  | some response =>
    dsimp only
    cases Text.isBlank response with
    | true => rfl
    | false => rfl

theorem foldl_appendLine_read (source : Option Text) (events : List RunEvent) (log : List LogEntry × ℕ)
    (lines : List LogLine) :
    (events.map RunEvent.read).foldl appendLine (lines ++ log.1.map LogEntry.read, log.2)
      = (lines ++ (events.foldl (appendEvent source) log).1.map LogEntry.read,
        (events.foldl (appendEvent source) log).2) := by
  induction events generalizing log with
  | nil => rfl
  | cons event events ih =>
    rw [List.map_cons, List.foldl_cons, List.foldl_cons, ← ih]
    simp [appendLine, appendEvent, LogEntry.read]

theorem foldl_appendSegment_read (segments : List EvidenceSegment) (log : List LogEntry × ℕ)
    (lines : List LogLine) :
    (segments.map EvidenceSegment.read).foldl Jev.appendSegment (lines ++ log.1.map LogEntry.read, log.2)
      = (lines ++ (segments.foldl appendSegment log).1.map LogEntry.read, (segments.foldl appendSegment log).2) := by
  induction segments generalizing log with
  | nil => rfl
  | cons segment segments ih =>
    rw [List.map_cons, List.foldl_cons, List.foldl_cons, Jev.appendSegment, segmentEvents_read,
      foldl_appendLine_read segment.source]
    exact ih (appendSegment log segment)

theorem runEventLog_read (request : Text) (segments : List EvidenceSegment) :
    runEventLog request (segments.map EvidenceSegment.read)
      = ⟨1, .user request⟩ :: (entries segments).map LogEntry.read :=
  congrArg Prod.fst (foldl_appendSegment_read segments ([], 2) [⟨1, .user request⟩])

/-- It accepts the identifiers that `event_ids` reads from them. -/
theorem eventIds_read (request : Text) (segments : List EvidenceSegment) :
    Jev.eventIds (runEventLog request (segments.map EvidenceSegment.read))
      = eventIds (fromSegments request segments) := by
  rw [runEventLog_read, Jev.eventIds, List.filter_cons_of_neg (by simp), eventIds_fromSegments]
  refine (congrArg (List.map _) (List.filter_eq_self.mpr fun line hline => ?_)).trans List.map_map
  obtain ⟨entry, _, rfl⟩ := List.mem_map.mp hline
  unfold LogEntry.read RunEvent.read
  cases entry.event with
  | assistant iteration response => rfl
  | tool call => rfl

/-! ### The log of a run -/

/-- A log that numbers the events of its segments from 2 on, each once and in order, and whose identifiers but
the request's can be cited. -/
structure NumbersOnce (request : Text) (segments : List EvidenceSegment) : Prop where
  numbers : (entries segments).map (·.number) = List.range' 2 (entries segments).length
  shows : (entries segments).map LogEntry.shows = shownEvents segments
  once : ∀ segment ∈ segments, EachOnce segment
  ids : eventIds (fromSegments request segments) = (entries segments).map fun entry => eventId entry.number
  distinct : (eventIds (fromSegments request segments)).Nodup

theorem numbersOnce (request : Text) {segments : List EvidenceSegment}
    (h : ∀ segment ∈ segments, Counted segment) : NumbersOnce request segments := by
  have hids := eventIds_fromSegments request segments
  refine ⟨numbers_entries segments, shows_entries segments, fun segment hsegment => eachOnce (h segment hsegment),
    hids, ?_⟩
  have hnumbers : ((entries segments).map (·.number)).map eventId
      = (entries segments).map fun entry => eventId entry.number := List.map_map
  rw [hids, ← hnumbers, numbers_entries]
  exact List.Nodup.map eventId_injective List.nodup_range'

/-- The segments that `JevRunState` has at the end of a run. -/
def recordedSegments (responses : List Text) (calls : List RecordedCall) (steps : List EvidenceStep) :
    List EvidenceSegment := (steps.foldl (evidenceStep responses calls) {}).segments

theorem iteration_renormalised_nonneg {cursor : ℕ} {call : RecordedCall} :
    0 ≤ (renormalised cursor call).iteration := by
  unfold renormalised
  cases hcount : call.iterationCount with
  | none => simp [ToolCallContext.iteration, hcount]
  | some count =>
    simp only [ToolCallContext.iteration, Option.getD_some]
    omega

theorem counted_evidenceStep (responses : List Text)
    (hcalls : ∀ call ∈ calls, 0 ≤ call.iteration) {state : EvidenceState} {step : EvidenceStep}
    (hevidence : ∀ evidence, step = .continuation evidence → Counted evidence)
    (h : ∀ segment ∈ state.segments, Counted segment) :
    ∀ segment ∈ (evidenceStep responses calls state step).segments, Counted segment := by
  have hadd : ∀ added, Counted added → ∀ segment ∈ state.segments ++ [added], Counted segment := by
    intro added hadded segment hsegment
    rcases List.mem_append.mp hsegment with hsegment | hsegment
    · exact h segment hsegment
    · rw [List.mem_singleton.mp hsegment]
      exact hadded
  cases step with
  | attempt r c =>
    unfold evidenceStep captureMainEvidence
    dsimp only
    have hnew : ∀ call ∈ (if state.mainResponseCursor = 0 then (calls.take c).drop state.mainCallCursor
        else ((calls.take c).drop state.mainCallCursor).map (renormalised state.mainResponseCursor)),
        0 ≤ call.iteration := by
      intro call hcall
      split at hcall
      · exact hcalls call (List.mem_of_mem_take (List.mem_of_mem_drop hcall))
      · obtain ⟨raw, _, rfl⟩ := List.mem_map.mp hcall
        exact iteration_renormalised_nonneg
    generalize (if state.mainResponseCursor = 0 then (calls.take c).drop state.mainCallCursor
      else ((calls.take c).drop state.mainCallCursor).map (renormalised state.mainResponseCursor)) = newCalls
      at hnew ⊢
    split
    · exact h
    · exact hadd _ hnew
  | continuation evidence =>
    have hcounted := hevidence evidence rfl
    unfold evidenceStep addContinuationEvidence
    dsimp only
    split
    · exact hadd _ hcounted
    · exact hadd _ hcounted

theorem counted_recordedSegments (responses : List Text)
    (hcalls : ∀ call ∈ calls, 0 ≤ call.iteration) (steps : List EvidenceStep)
    (hevidence : ∀ evidence, EvidenceStep.continuation evidence ∈ steps → Counted evidence) :
    ∀ segment ∈ recordedSegments responses calls steps, Counted segment := by
  have hrun : ∀ state : EvidenceState, (∀ segment ∈ state.segments, Counted segment) →
      ∀ segment ∈ (steps.foldl (evidenceStep responses calls) state).segments, Counted segment := by
    induction steps with
    | nil => exact fun _ h => h
    | cons step steps ih =>
      intro state h
      refine ih (fun evidence hmem => hevidence evidence (List.mem_cons_of_mem _ hmem)) _ ?_
      refine counted_evidenceStep responses hcalls (fun evidence hstep => hevidence evidence ?_) h
      rw [hstep]
      exact List.mem_cons_self
  exact hrun {} fun _ hsegment => nomatch hsegment

def LogEntry.unlabelled (entry : LogEntry) : RunEvent := entry.event.unlabelled

theorem unlabelled_entries (segments : List EvidenceSegment) :
    (entries segments).map LogEntry.unlabelled = (segments.flatMap segmentEvents).map RunEvent.unlabelled := by
  have hshows := congrArg (List.map fun shown : Option Text × RunEvent => shown.2.unlabelled)
    (shows_entries segments)
  rw [List.map_map] at hshows
  refine hshows.trans ?_
  rw [shownEvents, List.map_flatMap, List.map_flatMap]
  refine List.flatMap_congr fun segment _ => ?_
  rw [List.map_map]
  rfl

/-- **One log, however the run is cut.** -/
theorem log_of_cut_run (request : Text) {responses : List Text} {calls : List RecordedCall}
    {steps : List EvidenceStep} (hcalls : ∀ call ∈ calls, 0 ≤ call.iteration)
    (hevidence : ∀ evidence, EvidenceStep.continuation evidence ∈ steps → Counted evidence)
    (hcuts : IterationCuts responses calls 0 0 steps) :
    NumbersOnce request (recordedSegments responses calls steps) ∧
      NumbersOnce request (mainSegments responses calls {} steps) ∧
      NumbersOnce request [⟨none, responses, calls⟩] ∧
      (mainSegments responses calls {} steps).Sublist (recordedSegments responses calls steps) ∧
      (mainSegments responses calls {} steps).flatMap (·.responses) = responses ∧
      ((mainSegments responses calls {} steps).flatMap (·.toolCalls)).map RecordedCall.unlabelled
        = calls.map RecordedCall.unlabelled ∧
      (entries (mainSegments responses calls {} steps)).map LogEntry.unlabelled
        = (entries [⟨none, responses, calls⟩]).map LogEntry.unlabelled := by
  have hcounted := counted_recordedSegments responses hcalls steps hevidence
  obtain ⟨hrecords, later, hlater, hsub⟩ :=
    mainSegments_records hcuts {} rfl rfl (.inl ⟨rfl, rfl⟩)
  have hsublist : (mainSegments responses calls {} steps).Sublist (recordedSegments responses calls steps) := by
    rw [recordedSegments, hlater]
    exact hsub
  have hwhole : ∀ segment ∈ [(⟨none, responses, calls⟩ : EvidenceSegment)], Counted segment := by
    intro segment hsegment
    rw [List.mem_singleton.mp hsegment]
    exact hcalls
  refine ⟨numbersOnce request hcounted,
    numbersOnce request fun segment hsegment => hcounted segment (hsublist.subset hsegment),
    numbersOnce request hwhole, hsublist, hrecords.sameResponses, hrecords.sameCalls, ?_⟩
  rw [unlabelled_entries, unlabelled_entries, List.flatMap_singleton, ← hrecords.sameEvents]
  rfl

/-- Two iterations with a call each, the first of which also asks to finish. -/
def soughtTwice : List RecordedCall :=
  [⟨⟨lit "search", some 1⟩, lit "completed", lit "\x7b\x7d", none⟩,
    ⟨⟨isDoneToolName, some 1⟩, lit "completed", lit "\x7b\x7d", none⟩,
    ⟨⟨lit "search", some 2⟩, lit "completed", lit "\x7b\x7d", none⟩]

def soughtTwiceSteps : List EvidenceStep :=
  [.attempt 1 2, .continuation ⟨some (lit "fresh"), [lit "c"], []⟩, .attempt 2 3]

theorem log_of_cut_run_soughtTwice :
    NumbersOnce (lit "find it") (recordedSegments [lit "a", lit "b"] soughtTwice soughtTwiceSteps) ∧
      (entries (mainSegments [lit "a", lit "b"] soughtTwice {} soughtTwiceSteps)).map LogEntry.unlabelled
        = (entries [⟨none, [lit "a", lit "b"], soughtTwice⟩]).map LogEntry.unlabelled := by
  have hcalls : ∀ call ∈ soughtTwice, 0 ≤ call.iteration := by decide
  have hevidence : ∀ evidence, EvidenceStep.continuation evidence ∈ soughtTwiceSteps → Counted evidence := by
    intro evidence h
    rcases List.mem_cons.mp h with h | h
    · cases h
    rcases List.mem_cons.mp h with h | h
    · cases h
      exact fun call hcall => nomatch hcall
    · cases List.mem_singleton.mp h
  have hboundary : IterationBoundary soughtTwice 1 2 := ⟨by decide, by decide⟩
  have hcuts : IterationCuts [lit "a", lit "b"] soughtTwice 0 0 soughtTwiceSteps :=
    .attempt (by decide) (by decide) (by decide) (by decide) (.inr (.inl hboundary))
      (.continuation
        (.attempt (by decide) (by decide) (by decide) (by decide) (.inr (.inr ⟨rfl, rfl⟩)) .done))
  obtain ⟨hnumbers, _, _, _, _, _, hevents⟩ := log_of_cut_run (lit "find it") hcalls hevidence hcuts
  exact ⟨hnumbers, hevents⟩

end VidbyteSdk.Agents.Jev.JevRunEventLog
