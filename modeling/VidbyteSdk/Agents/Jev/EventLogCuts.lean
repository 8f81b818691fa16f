import VidbyteSdk.Agents.Jev.EventLog
import VidbyteSdk.Lib.Buckets

/-!
# The events of a run, however it is cut

Every event of a segment has one place in the log, in the order of the segment's loop. A run that is cut
between two iterations leaves the same events in the same order (`segmentEvents_cut`), so the segments that the
finish attempts record make the log of the whole run.
-/

namespace VidbyteSdk.Agents.Jev.JevRunEventLog

open Lib Lib.Json

/-! ### The numbers of the log -/

def LogEntry.shows (entry : LogEntry) : Option Text × RunEvent := (entry.source, entry.event)

theorem foldl_appendEvent (source : Option Text) (events : List RunEvent) (log : List LogEntry × ℕ) :
    (events.foldl (appendEvent source) log).2 = log.2 + events.length ∧
      (events.foldl (appendEvent source) log).1.map (·.number)
        = log.1.map (·.number) ++ List.range' log.2 events.length ∧
      (events.foldl (appendEvent source) log).1.map LogEntry.shows
        = log.1.map LogEntry.shows ++ events.map fun event => (source, event) := by
  induction events generalizing log with
  | nil => exact ⟨rfl, (List.append_nil _).symm, (List.append_nil _).symm⟩
  | cons event events ih =>
    obtain ⟨hnext, hnumbers, hshows⟩ := ih (appendEvent source log event)
    refine ⟨?_, ?_, ?_⟩
    · rw [List.foldl_cons, hnext, List.length_cons]
      show log.2 + 1 + events.length = _
      omega
    · rw [List.foldl_cons, hnumbers, List.length_cons, List.range'_succ]
      simp [appendEvent]
    · rw [List.foldl_cons, hshows]
      simp [appendEvent, LogEntry.shows]

def shownEvents (segments : List EvidenceSegment) : List (Option Text × RunEvent) :=
  segments.flatMap fun segment => (segmentEvents segment).map fun event => (segment.source, event)

theorem foldl_appendSegment (segments : List EvidenceSegment) (log : List LogEntry × ℕ) :
    (segments.foldl appendSegment log).1.map (·.number)
        = log.1.map (·.number) ++ List.range' log.2 (shownEvents segments).length ∧
      (segments.foldl appendSegment log).1.map LogEntry.shows
        = log.1.map LogEntry.shows ++ shownEvents segments := by
  induction segments generalizing log with
  | nil => exact ⟨(List.append_nil _).symm, (List.append_nil _).symm⟩
  | cons segment segments ih =>
    obtain ⟨hnumbers, hshows⟩ := ih (appendSegment log segment)
    obtain ⟨hnext', hnumbers', hshows'⟩ := foldl_appendEvent segment.source (segmentEvents segment) log
    change (appendSegment log segment).2 = _ at hnext'
    change (appendSegment log segment).1.map _ = _ at hnumbers'
    change (appendSegment log segment).1.map _ = _ at hshows'
    constructor
    · have hlength : (shownEvents (segment :: segments)).length
          = (segmentEvents segment).length + (shownEvents segments).length := by
        rw [shownEvents, List.flatMap_cons, List.length_append, List.length_map, shownEvents]
      rw [List.foldl_cons, hnumbers, hnumbers', hnext', List.append_assoc, List.range'_append_1, hlength]
    · rw [List.foldl_cons, hshows, hshows', List.append_assoc]
      rfl

theorem shows_entries (segments : List EvidenceSegment) :
    (entries segments).map LogEntry.shows = shownEvents segments :=
  (foldl_appendSegment segments ([], 2)).2

theorem numbers_entries (segments : List EvidenceSegment) :
    (entries segments).map (·.number) = List.range' 2 (entries segments).length := by
  have hlength := congrArg List.length (shows_entries segments)
  rw [List.length_map] at hlength
  rw [hlength]
  exact (foldl_appendSegment segments ([], 2)).1

/-! ### The events of a segment -/

variable {calls : List RecordedCall}

variable {call : RecordedCall}

theorem iteration_le_foldr (h : call ∈ calls) :
    call.iteration ≤ (calls.map fun call : RecordedCall => call.iteration).foldr max 0 := by
  induction calls with
  | nil => cases h
  | cons other calls ih =>
    rw [List.map_cons, List.foldr_cons]
    rcases List.mem_cons.mp h with rfl | h
    · exact Int.le_max_left _ _
    · exact Int.le_trans (ih h) (Int.le_max_right _ _)

theorem foldr_iteration_le {n : ℕ} (h : ∀ call ∈ calls, call.iteration ≤ n) :
    (calls.map fun call : RecordedCall => call.iteration).foldr max 0 ≤ (n : ℤ) := by
  induction calls with
  | nil => exact Int.natCast_nonneg n
  | cons call calls ih =>
    rw [List.forall_mem_cons] at h
    exact Int.max_le.mpr ⟨h.1, ih h.2⟩

theorem byIteration_eq_nil {iteration : ℕ}
    (h : ∀ call ∈ calls, call.iteration ≠ iteration) : byIteration calls iteration = [] := by
  rw [byIteration, List.map_eq_nil_iff, List.filter_eq_nil_iff]
  intro call hcall
  rw [decide_eq_true_eq]
  exact h call (List.mem_of_mem_filter hcall)

variable {responses : List Text}

theorem said_eq_nil {index : ℕ} (h : responses.length ≤ index) :
    said responses index = [] := by
  rw [said, List.getElem?_eq_none h]

def iterationEvents (segment : EvidenceSegment) (iteration : ℕ) : List RunEvent :=
  said segment.responses iteration ++ byIteration segment.toolCalls (iteration + 1)

theorem byIteration_of_lt {segment : EvidenceSegment} {iteration : ℕ} (h : lastIteration segment < iteration) :
    byIteration segment.toolCalls iteration = [] := by
  rw [byIteration, List.map_eq_nil_iff, List.filter_eq_nil_iff]
  intro call hcall
  have hle := iteration_le_foldr hcall
  have hlast : ((shown segment.toolCalls).map fun call : RecordedCall => call.iteration).foldr max 0
      ≤ (lastIteration segment : ℤ) := by
    rw [lastIteration]
    omega
  rw [decide_eq_true_eq]
  omega

theorem segmentEvents_eq {segment : EvidenceSegment} {n : ℕ} (h : lastIteration segment ≤ n) :
    segmentEvents segment
      = byIteration segment.toolCalls 0 ++ (List.range n).flatMap (iterationEvents segment) := by
  have hempty : ∀ iteration, lastIteration segment ≤ iteration → iterationEvents segment iteration = [] := by
    intro iteration hlast
    have hresponses : segment.responses.length ≤ lastIteration segment := Nat.le_max_left _ _
    rw [iterationEvents, said_eq_nil (by omega), byIteration_of_lt (by omega), List.append_nil]
  rw [flatMap_range_of_empty h hempty, ← flatMap_range_of_empty (Nat.le_succ _) hempty]
  rfl

/-! ### Cutting a run -/

def RecordedCall.unlabelled (call : RecordedCall) : RecordedCall := { call with iterationCount := none }

def RunEvent.unlabelled : RunEvent → RunEvent
  | .assistant _ response => .assistant 0 response
  | .tool call => .tool call.unlabelled

/-- So many responses and calls of a run are those of its iterations up to one of them. -/
def IterationBoundary (calls : List RecordedCall) (r c : ℕ) : Prop :=
  (∀ call ∈ calls.take c, call.iteration ≤ r) ∧ ∀ call ∈ calls.drop c, (r : ℤ) < call.iteration

theorem iteration_renormalised {cursor : ℕ} (h : (cursor : ℤ) < call.iteration) :
    (renormalised cursor call).iteration = call.iteration - cursor := by
  unfold renormalised
  cases hcount : call.iterationCount with
  | none =>
    rw [ToolCallContext.iteration, hcount, Option.getD_none] at h
    omega
  | some count =>
    rw [ToolCallContext.iteration, hcount, Option.getD_some] at h
    simp only [ToolCallContext.iteration, hcount, Option.getD_some]
    omega

theorem toolName_renormalised (cursor : ℕ) (call : RecordedCall) :
    (renormalised cursor call).toolName = call.toolName := by
  unfold renormalised
  split
  · rfl
  · rfl

theorem unlabelled_renormalised (cursor : ℕ) (call : RecordedCall) :
    (renormalised cursor call).unlabelled = call.unlabelled := by
  unfold renormalised
  split
  · rfl
  · rfl

theorem byIteration_append (before after : List RecordedCall) (iteration : ℕ) :
    byIteration (before ++ after) iteration = byIteration before iteration ++ byIteration after iteration := by
  simp only [byIteration, shown, List.filter_append, List.map_append]

theorem byIteration_renormalised {cursor : ℕ}
    (h : ∀ call ∈ calls, (cursor : ℤ) < call.iteration) (iteration : ℕ) :
    (byIteration (calls.map (renormalised cursor)) iteration).map RunEvent.unlabelled
      = (byIteration calls (cursor + iteration)).map RunEvent.unlabelled := by
  have hsame : (shown calls).filter
        (fun call => decide ((renormalised cursor call).iteration = (iteration : ℤ)))
      = (shown calls).filter fun call => decide (call.iteration = ((cursor + iteration : ℕ) : ℤ)) := by
    refine List.filter_congr fun call hcall => ?_
    rw [decide_eq_decide, iteration_renormalised (h call (List.mem_of_mem_filter hcall))]
    omega
  have hshown : shown (calls.map (renormalised cursor)) = (shown calls).map (renormalised cursor) := by
    rw [shown, List.filter_map, shown]
    refine congrArg (List.map _) (List.filter_congr fun call _ => ?_)
    rw [Function.comp_apply, toolName_renormalised]
  rw [byIteration, byIteration, hshown, List.filter_map, List.map_map, List.map_map, List.map_map, ← hsame]
  refine List.map_congr_left fun call _ => ?_
  exact congrArg RunEvent.tool (unlabelled_renormalised cursor call)

theorem said_drop (responses : List Text) (r index : ℕ) :
    (said (responses.drop r) index).map RunEvent.unlabelled
      = (said responses (r + index)).map RunEvent.unlabelled := by
  rw [said, said, List.getElem?_drop]
  cases responses[r + index]? with
  | none => rfl
  | some response =>
    dsimp only
    split
    · rfl
    · rfl

theorem said_take {r index : ℕ} (h : index < r) :
    said (responses.take r) index = said responses index := by
  rw [said, said, List.getElem?_take_of_lt h]

/-- **Cutting at an iteration.** The events of a run are those before the cut, then those behind it with their
iterations counted from it. -/
theorem segmentEvents_cut (responses : List Text) {r c : ℕ}
    (hcut : IterationBoundary calls r c) (source source' source'' : Option Text) :
    (segmentEvents ⟨source, responses, calls⟩).map RunEvent.unlabelled
      = (segmentEvents ⟨source', responses.take r, calls.take c⟩).map RunEvent.unlabelled
        ++ (segmentEvents ⟨source'', responses.drop r, (calls.drop c).map (renormalised r)⟩).map
          RunEvent.unlabelled := by
  have hcalls : ∀ iteration, byIteration calls iteration
      = byIteration (calls.take c) iteration ++ byIteration (calls.drop c) iteration := by
    intro iteration
    rw [← byIteration_append, List.take_append_drop]
  have hearly : ∀ iteration, iteration ≤ r → byIteration calls iteration = byIteration (calls.take c) iteration := by
    intro iteration hle
    have hnone : byIteration (calls.drop c) iteration = [] := by
      refine byIteration_eq_nil fun call hcall => ?_
      have hbehind := hcut.2 call hcall
      omega
    rw [hcalls, hnone, List.append_nil]
  have hlate : ∀ iteration, r < iteration → byIteration calls iteration = byIteration (calls.drop c) iteration := by
    intro iteration hlt
    have hnone : byIteration (calls.take c) iteration = [] := by
      refine byIteration_eq_nil fun call hcall => ?_
      have hbefore := hcut.1 call hcall
      omega
    rw [hcalls, hnone, List.nil_append]
  have hfirst : lastIteration ⟨source', responses.take r, calls.take c⟩ ≤ r := by
    have hle : ((shown (calls.take c)).map fun call : RecordedCall => call.iteration).foldr max 0 ≤ (r : ℤ) :=
      foldr_iteration_le fun call hcall => hcut.1 call (List.mem_of_mem_filter hcall)
    have hresponses := List.length_take_le r responses
    rw [lastIteration]
    dsimp only
    omega
  generalize hn : max (lastIteration ⟨source, responses, calls⟩)
    (lastIteration ⟨source'', responses.drop r, (calls.drop c).map (renormalised r)⟩) = n
  have hwhole : lastIteration ⟨source, responses, calls⟩ ≤ r + n := by omega
  have hsecond : lastIteration ⟨source'', responses.drop r, (calls.drop c).map (renormalised r)⟩ ≤ n := by omega
  have hbefore : (List.range r).flatMap (iterationEvents ⟨source, responses, calls⟩)
      = (List.range r).flatMap (iterationEvents ⟨source', responses.take r, calls.take c⟩) := by
    refine List.flatMap_congr fun iteration hiteration => ?_
    rw [List.mem_range] at hiteration
    rw [iterationEvents, iterationEvents, said_take hiteration, hearly (iteration + 1) hiteration]
  have hnone : (byIteration ((calls.drop c).map (renormalised r)) 0).map RunEvent.unlabelled = [] := by
    have hcut' : byIteration (calls.drop c) (r + 0) = [] := by
      refine byIteration_eq_nil fun call hcall => ?_
      have hbehind := hcut.2 call hcall
      omega
    rw [byIteration_renormalised hcut.2, hcut', List.map_nil]
  have hbehind : ((List.range n).flatMap fun iteration =>
        iterationEvents ⟨source, responses, calls⟩ (r + iteration)).map RunEvent.unlabelled
      = ((List.range n).flatMap (iterationEvents
          ⟨source'', responses.drop r, (calls.drop c).map (renormalised r)⟩)).map RunEvent.unlabelled := by
    rw [List.map_flatMap, List.map_flatMap]
    refine List.flatMap_congr fun iteration _ => ?_
    rw [iterationEvents, iterationEvents, List.map_append, List.map_append, said_drop,
      byIteration_renormalised hcut.2, hlate (r + iteration + 1) (by omega), Nat.add_assoc]
  rw [segmentEvents_eq hwhole, segmentEvents_eq hfirst, segmentEvents_eq hsecond, List.range_add,
    List.flatMap_append, List.flatMap_map]
  simp only [List.map_append, hnone, List.nil_append, ← hbehind, hbefore, hearly 0 (Nat.zero_le r),
    List.append_assoc]

/-! ### Recording attempts -/

theorem renormalised_zero (h : 0 < call.iteration) : renormalised 0 call = call := by
  unfold renormalised
  cases hcount : call.iterationCount with
  | none => rfl
  | some count =>
    have hcall : call.iteration = count := by
      rw [ToolCallContext.iteration, hcount, Option.getD_some]
    have hmax : max 0 (count - ((0 : ℕ) : ℤ)) = count := by omega
    obtain ⟨⟨name, _⟩, state, arguments, result⟩ := call
    dsimp only at hcount
    subst hcount
    dsimp only
    rw [hmax]

theorem newCalls_eq {r c : ℕ} (h : IterationBoundary calls r c) :
    (if r = 0 then calls.drop c else (calls.drop c).map (renormalised r))
      = (calls.drop c).map (renormalised r) := by
  split
  · next hzero =>
    subst hzero
    have hself : (calls.drop c).map (renormalised 0) = (calls.drop c).map id :=
      List.map_congr_left fun call hcall => renormalised_zero (h.2 call hcall)
    rw [hself, List.map_id]
  · rfl

theorem IterationBoundary.take {r c c' : ℕ} (h : IterationBoundary calls r c)
    (hle : c ≤ c') : IterationBoundary (calls.take c') r c := by
  constructor
  · rw [List.take_take, Nat.min_eq_left hle]
    exact h.1
  · intro call hcall
    rw [List.drop_take] at hcall
    exact h.2 call (List.mem_of_mem_take hcall)

/-- What one attempt records: the responses and calls since the last one, and with those before it the events
of all that it has seen. -/
structure Records (responses : List Text) (calls : List RecordedCall) (r c r' c' : ℕ)
    (recorded : List EvidenceSegment) : Prop where
  sameResponses : recorded.flatMap (·.responses) = (responses.take r').drop r
  sameCalls : (recorded.flatMap (·.toolCalls)).map RecordedCall.unlabelled
    = ((calls.take c').drop c).map RecordedCall.unlabelled
  sameEvents : (segmentEvents ⟨none, responses.take r, calls.take c⟩).map RunEvent.unlabelled
      ++ (recorded.flatMap segmentEvents).map RunEvent.unlabelled
    = (segmentEvents ⟨none, responses.take r', calls.take c'⟩).map RunEvent.unlabelled

/-- Where an attempt stands in the run: at its start, between two iterations, or at its end. -/
def Cut (responses : List Text) (calls : List RecordedCall) (r c : ℕ) : Prop :=
  (r = 0 ∧ c = 0) ∨ IterationBoundary calls r c ∨ (r = responses.length ∧ c = calls.length)

theorem records_singleton {r c r' c' : ℕ}
    (hcut : Cut responses calls r c) (hr : r ≤ r') (hc : c ≤ c') (source : Option Text) :
    Records responses calls r c r' c' [⟨source, (responses.take r').drop r,
      if r = 0 then (calls.take c').drop c else ((calls.take c').drop c).map (renormalised r)⟩] := by
  rcases hcut with ⟨rfl, rfl⟩ | hcut | ⟨rfl, rfl⟩
  · refine ⟨by simp, by simp, ?_⟩
    rw [List.flatMap_singleton, if_pos rfl]
    rfl
  · rw [newCalls_eq (hcut.take hc)]
    refine ⟨by simp, ?_, ?_⟩
    · rw [List.flatMap_singleton, List.map_map]
      exact List.map_congr_left fun call _ => unlabelled_renormalised r call
    · have hsplit := segmentEvents_cut (responses.take r') (hcut.take hc) none none source
      rw [List.take_take, List.take_take, Nat.min_eq_left hr, Nat.min_eq_left hc] at hsplit
      rw [List.flatMap_singleton, hsplit]
  · rw [List.take_of_length_le hr, List.take_of_length_le hc, List.drop_length, List.drop_length, List.map_nil,
      ite_self]
    refine ⟨?_, ?_, ?_⟩
    · rw [List.take_of_length_le hr, List.drop_length]
      rfl
    · rw [List.take_of_length_le hc, List.drop_length]
      rfl
    · rw [List.take_length, List.take_length, List.take_of_length_le hr, List.take_of_length_le hc]
      exact List.append_nil _

theorem captureMainEvidence_records {state : EvidenceState}
    {r' c' : ℕ} (hcut : Cut responses calls state.mainResponseCursor state.mainCallCursor)
    (hr : state.mainResponseCursor ≤ r') (hc : state.mainCallCursor ≤ c') (hr' : r' ≤ responses.length)
    (hc' : c' ≤ calls.length) :
    ∃ recorded, (evidenceStep responses calls state (.attempt r' c')).segments = state.segments ++ recorded ∧
      (evidenceStep responses calls state (.attempt r' c')).mainResponseCursor = r' ∧
      (evidenceStep responses calls state (.attempt r' c')).mainCallCursor = c' ∧
      Records responses calls state.mainResponseCursor state.mainCallCursor r' c' recorded := by
  have hone := fun source => records_singleton hcut hr hc source
  unfold evidenceStep captureMainEvidence
  dsimp only
  generalize (if state.mainResponseCursor = 0 then (calls.take c').drop state.mainCallCursor
    else ((calls.take c').drop state.mainCallCursor).map (renormalised state.mainResponseCursor)) = newCalls
    at hone ⊢
  split
  · next hempty =>
    refine ⟨[], (List.append_nil _).symm, List.length_take_of_le hr', List.length_take_of_le hc', ?_⟩
    obtain ⟨_, hcalls, hevents⟩ := hone none
    rw [hempty.1, hempty.2] at hcalls hevents
    exact ⟨hempty.1.symm, hcalls, hevents⟩
  · exact ⟨_, rfl, List.length_take_of_le hr', List.length_take_of_le hc', hone _⟩

/-- Finish attempts, from one place of the run to its end, and continuations between them. -/
inductive IterationCuts (responses : List Text) (calls : List RecordedCall) : ℕ → ℕ → List EvidenceStep → Prop
  | done : IterationCuts responses calls responses.length calls.length []
  | attempt {r c r' c' : ℕ} {steps : List EvidenceStep} : r ≤ r' → c ≤ c' → r' ≤ responses.length →
      c' ≤ calls.length → Cut responses calls r' c' → IterationCuts responses calls r' c' steps →
      IterationCuts responses calls r c (.attempt r' c' :: steps)
  | continuation {r c : ℕ} {steps : List EvidenceStep} {evidence : EvidenceSegment} :
      IterationCuts responses calls r c steps → IterationCuts responses calls r c (.continuation evidence :: steps)

theorem drop_take_append_drop_of_le {α : Type} (items : List α) {r r' : ℕ} (h : r ≤ r') :
    (items.take r').drop r ++ items.drop r' = items.drop r := by
  obtain ⟨k, rfl⟩ := Nat.exists_eq_add_of_le h
  rw [List.drop_take, Nat.add_sub_cancel_left]
  exact List.drop_take_append_drop items r k

theorem segments_addContinuationEvidence (state : EvidenceState) (evidence : EvidenceSegment) :
    ∃ added, (addContinuationEvidence state evidence).segments = state.segments ++ [added] ∧
      (addContinuationEvidence state evidence).mainResponseCursor = state.mainResponseCursor ∧
      (addContinuationEvidence state evidence).mainCallCursor = state.mainCallCursor := by
  unfold addContinuationEvidence
  split
  · exact ⟨_, rfl, rfl, rfl⟩
  · exact ⟨_, rfl, rfl, rfl⟩

/-- What the finish attempts of a run record, from one place of it to its end. -/
structure RecordsRest (responses : List Text) (calls : List RecordedCall) (r c : ℕ)
    (recorded : List EvidenceSegment) : Prop where
  sameResponses : recorded.flatMap (·.responses) = responses.drop r
  sameCalls : (recorded.flatMap (·.toolCalls)).map RecordedCall.unlabelled
    = (calls.drop c).map RecordedCall.unlabelled
  sameEvents : (segmentEvents ⟨none, responses.take r, calls.take c⟩).map RunEvent.unlabelled
      ++ (recorded.flatMap segmentEvents).map RunEvent.unlabelled
    = (segmentEvents ⟨none, responses, calls⟩).map RunEvent.unlabelled

theorem Records.andThen {r c r' c' : ℕ}
    {recorded rest : List EvidenceSegment} (h : Records responses calls r c r' c' recorded) (hr : r ≤ r')
    (hc : c ≤ c') (hrest : RecordsRest responses calls r' c' rest) :
    RecordsRest responses calls r c (recorded ++ rest) := by
  refine ⟨?_, ?_, ?_⟩
  · rw [List.flatMap_append, h.sameResponses, hrest.sameResponses, drop_take_append_drop_of_le responses hr]
  · rw [List.flatMap_append, List.map_append, h.sameCalls, hrest.sameCalls, ← List.map_append,
      drop_take_append_drop_of_le calls hc]
  · rw [List.flatMap_append, List.map_append, ← List.append_assoc, h.sameEvents, hrest.sameEvents]

/-- **However the run is cut**, its finish attempts record the rest of it, and in the log their segments stand
in that order. -/
theorem mainSegments_records {steps : List EvidenceStep}
    {r c : ℕ} (hcuts : IterationCuts responses calls r c steps) (state : EvidenceState)
    (hresponses : state.mainResponseCursor = r) (hcalls : state.mainCallCursor = c) (hcut : Cut responses calls r c) :
    RecordsRest responses calls r c (mainSegments responses calls state steps) ∧
      ∃ later, (steps.foldl (evidenceStep responses calls) state).segments = state.segments ++ later ∧
        (mainSegments responses calls state steps).Sublist later := by
  induction hcuts generalizing state with
  | done =>
    refine ⟨⟨?_, ?_, ?_⟩, [], (List.append_nil _).symm, List.Sublist.refl _⟩
    · exact (List.drop_length).symm
    · rw [List.drop_length]
      rfl
    · rw [List.take_length, List.take_length]
      exact List.append_nil _
  | @attempt r c r' c' steps hr hc hr' hc' hcut' _ ih =>
    subst hresponses hcalls
    obtain ⟨recorded, hsegments, hresponses', hcalls', hrecords⟩ :=
      captureMainEvidence_records hcut hr hc hr' hc'
    obtain ⟨hrest, later, hlater, hsub⟩ := ih _ hresponses' hcalls' hcut'
    have hnew : (evidenceStep responses calls state (.attempt r' c')).segments.drop state.segments.length
        = recorded := by
      rw [hsegments, List.drop_left]
    rw [mainSegments, hnew, List.foldl_cons, hlater, hsegments]
    refine ⟨hrecords.andThen hr hc hrest, recorded ++ later, List.append_assoc _ _ _, ?_⟩
    exact (List.append_sublist_append_left recorded).mpr hsub
  | @continuation r c steps evidence _ ih =>
    obtain ⟨added, hsegments, hresponses', hcalls'⟩ := segments_addContinuationEvidence state evidence
    obtain ⟨hrest, later, hlater, hsub⟩ := ih _ (hresponses'.trans hresponses) (hcalls'.trans hcalls) hcut
    rw [mainSegments, List.foldl_cons]
    refine ⟨hrest, added :: later, ?_, hsub.cons added⟩
    change (steps.foldl (evidenceStep responses calls) (addContinuationEvidence state evidence)).segments = _
    rw [hlater, hsegments, List.append_assoc]
    rfl

end VidbyteSdk.Agents.Jev.JevRunEventLog
