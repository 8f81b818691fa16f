import VidbyteSdk.Providers.Messages

/-!
# Tool exchanges stay whole

A pairing-valid history is a sequence of turns and exchanges, an exchange being a call turn with the results of
its calls. The prompt always lands between two of them, and every adapter sends what the history says, in its
order. Gemini's merges leave one turn for each exchange's calls and one for its results.
-/

namespace VidbyteSdk.Providers

open VidbyteSdk.Lib

/-- A turn without calls or results, or a call turn with its results. -/
inductive Segment where
  | turn (message : Message)
  | exchange (call : Message) (results : List Message)
  deriving DecidableEq

def Segment.messages : Segment → List Message
  | .turn message => [message]
  | .exchange call results => call :: results

def Segment.map (f : Message → Message) : Segment → Segment
  | .turn message => .turn (f message)
  | .exchange call results => .exchange (f call) (results.map f)

def Segment.results : Segment → List Message
  | .turn _ => []
  | .exchange _ results => results

def history (segments : List Segment) : List Message := segments.flatMap Segment.messages

def OutsideExchanges (segments : List Segment) (promptIndex : Option ℕ) : Prop :=
  ∀ index ∈ promptIndex, index ≤ (history segments).length →
    ∃ before after, segments = before ++ after ∧ index = (history before).length

/-! ### Where the prompt lands -/

theorem history_append (before after : List Segment) :
    history (before ++ after) = history before ++ history after :=
  List.flatMap_append

theorem map_history (f : Message → Message) (segments : List Segment) :
    (history segments).map f = history (segments.map (Segment.map f)) := by
  unfold history
  rw [List.map_flatMap, List.flatMap_map]
  refine List.flatMap_congr fun segment _ => ?_
  cases segment <;> rfl

theorem length_map_history (f : Message → Message) (segments : List Segment) :
    (history (segments.map (Segment.map f))).length = (history segments).length := by
  rw [← map_history, List.length_map]

variable {opens : Option Message → Message → Bool}

theorem firstTurn_append {results : List Message}
    (hresults : ∀ result ∈ results, ∀ previous, opens previous result = false) (previous : Option Message)
    (turns : List Message) : ∃ last, firstTurn opens previous (results ++ turns) =
      results.length + firstTurn opens last turns := by
  induction results generalizing previous with
  | nil => exact ⟨previous, (Nat.zero_add _).symm⟩
  | cons result results ih =>
    obtain ⟨last, hlast⟩ := ih (fun result hresult => hresults result (List.mem_cons_of_mem _ hresult))
      (some result)
    refine ⟨last, ?_⟩
    rw [List.cons_append, firstTurn, hresults result List.mem_cons_self, hlast, List.length_cons]
    simp only [Bool.false_eq_true, if_false]
    omega

theorem firstTurn_eq_length (segments : List Segment)
    (hresults : ∀ segment ∈ segments, ∀ result ∈ segment.results, ∀ previous,
      opens previous result = false) (previous : Option Message) :
    ∃ before after, segments = before ++ after ∧
      firstTurn opens previous (history segments) = (history before).length := by
  induction segments generalizing previous with
  | nil => exact ⟨[], [], rfl, rfl⟩
  | cons segment segments ih =>
    have ih := ih fun later hlater => hresults later (List.mem_cons_of_mem _ hlater)
    have hthis := hresults segment List.mem_cons_self
    cases segment with
    | turn message =>
      show ∃ before after, _ ∧ firstTurn opens previous (message :: history segments) = _
      rw [firstTurn]
      split
      · exact ⟨[], _, rfl, rfl⟩
      · obtain ⟨before, after, hsplit, hplace⟩ := ih (some message)
        refine ⟨.turn message :: before, after, by rw [hsplit]; rfl, ?_⟩
        rw [hplace]
        exact (List.length_cons ..).symm
    | exchange call results =>
      show ∃ before after, _ ∧ firstTurn opens previous (call :: (results ++ history segments)) = _
      rw [firstTurn]
      split
      · exact ⟨[], _, rfl, rfl⟩
      · obtain ⟨last, hlast⟩ := firstTurn_append (show ∀ result ∈ results, _ from hthis) (some call) (history segments)
        obtain ⟨before, after, hsplit, hplace⟩ := ih last
        refine ⟨.exchange call results :: before, after, by rw [hsplit]; rfl, ?_⟩
        rw [hlast, hplace]
        simp [history, Segment.messages]

theorem insertTurn_history (before after : List Segment) (prompt : Message) :
    insertTurn (history (before ++ after)) (history before).length prompt =
      history before ++ prompt :: history after := by
  unfold insertTurn
  rw [history_append, List.take_left, List.drop_left]

variable {segments : List Segment} {promptIndex : Option ℕ}

theorem PromptPlacement.index_between {isCallTurn : Message → Bool}
    (hresults : ∀ segment ∈ segments, ∀ result ∈ segment.results, isCallTurn result = false)
    (houtside : OutsideExchanges segments promptIndex) :
    ∃ before after, segments = before ++ after ∧
      PromptPlacement.index (history segments) isCallTurn promptIndex = (history before).length := by
  unfold PromptPlacement.index
  cases hindex : promptIndex.filter fun b : ℕ => b ≤ (history segments).length with
  | some b =>
    obtain ⟨hmem, hle⟩ := Option.filter_eq_some_iff.mp hindex
    exact houtside b hmem (of_decide_eq_true hle)
  | none =>
    refine firstTurn_eq_length segments (fun segment hsegment result hresult previous => ?_) none
    rw [hresults segment hsegment result hresult, Bool.false_and]

/-! ### OpenAI Responses and compatible chats -/

/-- The segments of a chat-shaped history, as `ToolsFormatter` builds their turns: the results answer the
calls one for one. -/
def ChatSegment : Segment → Prop
  | .turn message => message.type = none ∧
    (message.role = some .user ∨ message.role = some .assistant ∨ message.role = some .system) ∧
      message.toolCalls = none
  | .exchange call results => call.type = none ∧ call.role = some .assistant ∧
    (∃ calls, call.toolCalls = some calls ∧ calls ≠ [] ∧
      (results.map Message.toolCallId).Perm (calls.map FunctionCall.id)) ∧
    ∀ result ∈ results, result.type = none ∧ result.role = some .tool

/-- What a Responses request says of a segment: the text of a call turn, and one item for each call and for
each result, under its call id. -/
def Segment.wire : Segment → List ResponsesItem
  | .turn message => [.message message]
  | .exchange call results =>
    (if call.content.any Content.isTruthy then
      [.message { role := some .assistant, content := call.content }] else []) ++
    ((call.toolCalls.getD []).map fun call => .functionCall call.id call.name call.argumentsText) ++
    results.map fun result => .functionCallOutput result.toolCallId result.content

def ResponsesItem.callIds : ResponsesItem → List (Option String)
  | .functionCall callId .. => [callId]
  | _ => []

def ResponsesItem.outputIds : ResponsesItem → List (Option String)
  | .functionCallOutput callId _ => [callId]
  | _ => []

def Segment.callIds : Segment → List (Option String)
  | .turn _ => []
  | .exchange call _ => (call.toolCalls.getD []).map FunctionCall.id

variable {f : ResponsesItem → List (Option String)}

theorem Segment.flatMap_wire (hmessage : ∀ m, f (.message m) = [])
    (call : Message) (results : List Message) :
    (Segment.exchange call results).wire.flatMap f =
      ((call.toolCalls.getD []).flatMap fun call => f (.functionCall call.id call.name call.argumentsText)) ++
        results.flatMap fun result => f (.functionCallOutput result.toolCallId result.content) := by
  have htext : (if call.content.any Content.isTruthy then
      [ResponsesItem.message { role := some .assistant, content := call.content }] else []).flatMap f = [] := by
    split
    · rw [List.flatMap_singleton, hmessage]
    · rfl
  unfold Segment.wire
  rw [List.flatMap_append, List.flatMap_append, htext, List.nil_append, List.flatMap_map, List.flatMap_map]

theorem Segment.callIds_wire (segment : Segment) :
    segment.wire.flatMap ResponsesItem.callIds = segment.callIds := by
  cases segment with
  | turn message => rfl
  | exchange call results =>
    rw [Segment.flatMap_wire fun _ => rfl]
    simp [ResponsesItem.callIds, Segment.callIds, List.map_eq_flatMap]

theorem Segment.outputIds_wire (segment : Segment) :
    segment.wire.flatMap ResponsesItem.outputIds = segment.results.map Message.toolCallId := by
  cases segment with
  | turn message => rfl
  | exchange call results =>
    rw [Segment.flatMap_wire fun _ => rfl]
    simp [ResponsesItem.outputIds, Segment.results, List.map_eq_flatMap]

variable {segment : Segment}

theorem ChatSegment.isChatCallTurn (h : ChatSegment segment) :
    ∀ result ∈ segment.results, PromptPlacement.isChatCallTurn result = false := by
  intro result hresult
  cases segment with
  | turn message => cases hresult
  | exchange call results =>
    obtain ⟨htype, hrole⟩ := h.2.2.2 result hresult
    simp [PromptPlacement.isChatCallTurn, htype, hrole]

theorem ChatSegment.flatMap_responsesItems (h : ChatSegment segment) :
    segment.messages.flatMap responsesItems = segment.wire := by
  cases segment with
  | turn message =>
    obtain ⟨htype, hrole, hcalls⟩ := h
    have htool : message.role ≠ some .tool := by
      rcases hrole with hrole | hrole | hrole <;> rw [hrole] <;> decide
    simp [Segment.messages, Segment.wire, responsesItems, htype, htool, hcalls]
  | exchange call results =>
    obtain ⟨htype, hrole, ⟨calls, hcalls, -, -⟩, hresults⟩ := h
    have hcall : responsesItems call = (if call.content.any Content.isTruthy then
          [.message { role := some .assistant, content := call.content }] else []) ++
        calls.map fun call => .functionCall call.id call.name call.argumentsText := by
      simp [responsesItems, htype, hrole, hcalls]
    have houtputs : results.flatMap responsesItems =
        results.map fun result => .functionCallOutput result.toolCallId result.content := by
      rw [← List.flatMap_singleton' (results.map _), List.flatMap_map]
      refine List.flatMap_congr fun result hresult => ?_
      obtain ⟨hresultType, hresultRole⟩ := hresults result hresult
      simp [responsesItems, hresultType, hresultRole]
    show (call :: results).flatMap responsesItems = _
    rw [List.flatMap_cons, hcall, houtputs]
    simp only [Segment.wire, hcalls, Option.getD_some]

theorem flatMap_wire (h : ∀ segment ∈ segments, ChatSegment segment) :
    (history segments).flatMap responsesItems = segments.flatMap Segment.wire := by
  unfold history
  rw [List.flatMap_assoc]
  exact List.flatMap_congr fun segment hsegment => (h segment hsegment).flatMap_responsesItems

theorem chatPlacement (h : ∀ segment ∈ segments, ChatSegment segment)
    (houtside : OutsideExchanges segments promptIndex) :
    ∃ before after, segments = before ++ after ∧
      PromptPlacement.index (history segments) PromptPlacement.isChatCallTurn promptIndex =
        (history before).length :=
  PromptPlacement.index_between (fun segment hsegment => (h segment hsegment).isChatCallTurn) houtside

theorem createInput_spec (h : ∀ segment ∈ segments, ChatSegment segment)
    (houtside : OutsideExchanges segments promptIndex) (prompt : String) :
    (segments = [] ∧ createInput (history segments) promptIndex prompt = .text prompt) ∨
      ∃ before after, segments = before ++ after ∧ createInput (history segments) promptIndex prompt =
        .items (before.flatMap Segment.wire ++ .message (promptTurn prompt) :: after.flatMap Segment.wire) := by
  by_cases hnil : segments = []
  · subst hnil
    exact .inl ⟨rfl, rfl⟩
  · refine .inr ?_
    obtain ⟨before, after, hsplit, hplace⟩ := chatPlacement h houtside
    refine ⟨before, after, hsplit, ?_⟩
    have hhistory : history segments ≠ [] := by
      obtain ⟨segment, rest, rfl⟩ := List.exists_cons_of_ne_nil hnil
      cases segment <;> exact List.cons_ne_nil _ _
    unfold createInput
    rw [if_neg hhistory, hplace]
    subst hsplit
    have hbefore := flatMap_wire fun segment hsegment => h segment (List.mem_append_left after hsegment)
    have hafter := flatMap_wire fun segment hsegment => h segment (List.mem_append_right before hsegment)
    rw [insertTurn_history, List.flatMap_append, List.flatMap_cons, hbefore, hafter]
    rfl

theorem flatMap_items {g : Segment → List (Option String)}
    (hwire : ∀ segment : Segment, segment.wire.flatMap f = g segment) (hmessage : ∀ m, f (.message m) = [])
    (before after : List Segment) (prompt : Message) :
    (before.flatMap Segment.wire ++ .message prompt :: after.flatMap Segment.wire).flatMap f =
      (before ++ after).flatMap g := by
  have hall : ∀ segments : List Segment, (segments.flatMap Segment.wire).flatMap f = segments.flatMap g := by
    intro segments
    rw [List.flatMap_assoc]
    exact List.flatMap_congr fun segment _ => hwire segment
  rw [List.flatMap_append, List.flatMap_cons, hall, hall, hmessage, List.nil_append, List.flatMap_append]

theorem createChatMessages_spec (h : ∀ segment ∈ segments, ChatSegment segment)
    (houtside : OutsideExchanges segments promptIndex) (prompt : String)
    (instructions : Option String) :
    ∃ before after, segments = before ++ after ∧
      createChatMessages (history segments) promptIndex prompt instructions =
        systemTurns instructions ++ (history before ++ promptTurn prompt :: history after) := by
  obtain ⟨before, after, hsplit, hplace⟩ := chatPlacement h houtside
  refine ⟨before, after, hsplit, ?_⟩
  unfold createChatMessages
  rw [hplace, hsplit, insertTurn_history]

/-! ### Anthropic -/

def Block.isToolResult : Block → Bool
  | .toolResult .. => true
  | _ => false

def blocksOf (message : Message) : List Block := message.content.elim [] Content.blockList

def toolUseIds (message : Message) : List String :=
  (blocksOf message).filterMap fun block =>
    match block with
    | .toolUse id _ _ => some id
    | _ => none

def toolResultIds (message : Message) : List String :=
  (blocksOf message).filterMap fun block =>
    match block with
    | .toolResult id _ _ => some id
    | _ => none

/-- The segments of a history for Anthropic: results are user turns of `tool_result` blocks. -/
def AnthropicSegment : Segment → Prop
  | .turn message =>
    (message.role = some .user ∨ message.role = some .assistant ∨ message.role = some .system) ∧
      ∀ block ∈ blocksOf message, block.isToolUse = false ∧ block.isToolResult = false
  | .exchange call results => call.role = some .assistant ∧ toolUseIds call ≠ [] ∧
    (∀ result ∈ results, result.role = some .user ∧ ∀ block ∈ blocksOf result, block.isToolResult = true) ∧
    (results.flatMap toolResultIds).Perm (toolUseIds call)

theorem AnthropicSegment.isToolUseTurn (h : AnthropicSegment segment) :
    ∀ result ∈ (segment.map anthropicTurn).results, isToolUseTurn result = false := by
  intro result hresult
  cases segment with
  | turn message => cases hresult
  | exchange call results =>
    obtain ⟨original, horiginal, rfl⟩ := List.mem_map.mp hresult
    have hrole := (h.2.2.1 original horiginal).1
    have hsame : anthropicTurn original = original := by simp [anthropicTurn, hrole]
    simp [hsame, Providers.isToolUseTurn, hrole]

theorem OutsideExchanges.map (h : OutsideExchanges segments promptIndex) (f : Message → Message) :
    OutsideExchanges (segments.map (Segment.map f)) promptIndex := by
  intro index hindex hle
  rw [length_map_history] at hle
  obtain ⟨before, after, rfl, hplace⟩ := h index hindex hle
  exact ⟨before.map (Segment.map f), after.map (Segment.map f), List.map_append,
    by rw [length_map_history, hplace]⟩

theorem createMessages_spec (h : ∀ segment ∈ segments, AnthropicSegment segment)
    (houtside : OutsideExchanges segments promptIndex) (prompt : String) :
    ∃ before after, segments = before ++ after ∧ createMessages (history segments) promptIndex prompt =
      (history before).map anthropicTurn ++ promptTurn prompt :: (history after).map anthropicTurn := by
  have hresults : ∀ segment ∈ segments.map (Segment.map anthropicTurn), ∀ result ∈ segment.results,
      isToolUseTurn result = false := by
    intro segment hsegment
    obtain ⟨original, horiginal, rfl⟩ := List.mem_map.mp hsegment
    exact (h original horiginal).isToolUseTurn
  obtain ⟨before, after, hsplit, hplace⟩ :=
    PromptPlacement.index_between hresults (houtside.map anthropicTurn)
  obtain ⟨front, back, rfl, rfl, rfl⟩ := List.map_eq_append_iff.mp hsplit
  refine ⟨front, back, rfl, ?_⟩
  unfold createMessages
  simp only [map_history]
  rw [hplace, List.map_append, insertTurn_history]

end VidbyteSdk.Providers
