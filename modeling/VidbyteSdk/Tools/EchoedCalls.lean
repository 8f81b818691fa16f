import VidbyteSdk.Lib.Checks
import VidbyteSdk.Tools.CallFormats

/-!
# Echoed and parsed calls

A tool exchange is the echoed assistant turn followed by one result for each parsed call. `EchoAgrees` says that the
two go together: the listed calls are the parsed ones, each result is written under the id its call carries, and no two
calls carry one id. Echo and parse are separate walks through a payload, so this holds of some payloads only:
`AgreesWhen`.
-/

namespace VidbyteSdk.Tools.Formatter

open VidbyteSdk.Lib
open Json (lit strip firstTruthy)

variable (S : Strings)

/-! ### Agreement -/

def listedCalls (provider : Family) (turn : Option Json) : List Json :=
  match provider with
  | .anthropic => (listAt turn (lit "content")).filter isToolUse
  | .gemini => (listAt turn (lit "parts")).filter isFunctionCall
  | _ => listAt turn (lit "tool_calls")

def echoedId (provider : Family) (call : Json) : Option Json :=
  match provider with
  | .gemini => firstTruthy [(functionCallOf call).get? (lit "id"), call.get? (lit "id")]
  | _ => call.get? (lit "id")

def echoedName (provider : Family) (call : Json) : Text :=
  match provider with
  | .anthropic => nameOf S call
  | .gemini => nameOf S (functionCallOf call)
  | _ => nameOf S ((call.get? (lit "function")).getD call)

def writtenId (provider : Family) (message : Json) : Option Json :=
  match provider with
  | .anthropic => (listAt (some message) (lit "content")).head?.bind fun block => block.get? (lit "tool_use_id")
  | .gemini => ((listAt (some message) (lit "parts")).head?.bind fun part => part.get? (lit "functionResponse")).bind
      fun response => response.get? (lit "id")
  | _ => message.get? (lit "tool_call_id")

/-- Listed and parsed calls correspond one to one in order, with the ids of their results, and ids are distinct. -/
def EchoAgrees (rawPayload : Json) (provider : Family) : Prop :=
  ∃ turn calls, formatAssistantToolCalls S rawPayload provider = .ok turn ∧
    parseToolCalls S rawPayload provider = .ok calls ∧
    List.Forall₂ (fun listed call => echoedName S provider listed = call.toolName ∧
      ∀ result, echoedId provider listed = writtenId provider (formatToolResult S call result provider))
      (listedCalls provider turn) calls ∧
    ((listedCalls provider turn).map (echoedId provider)).Nodup

/-! ### What a parsed call is made of -/

/-- Arguments that `_parse_arguments` accepts. -/
def decodes (rawArguments : Option Json) : Bool :=
  match rawArguments.getD (.obj []) with
  | .null => true
  | .obj _ => true
  | .str text =>
    Text.isBlank text || match Json.loads text with
      | some .null => true
      | some (.obj _) => true
      | _ => false
  | _ => false

def isObjectOrNull (value : Option Json) : Bool :=
  match value.getD (.obj []) with
  | .null => true
  | .obj _ => true
  | _ => false

def chatFunction (rawCall : Json) : Json := (rawCall.get? (lit "function")).getD rawCall

def chatParses (rawCall : Json) : Bool :=
  (chatFunction rawCall).isMapping && decodes ((chatFunction rawCall).get? (lit "arguments")) &&
    !Text.isBlank (nameOf S (chatFunction rawCall))

def anthropicParses (block : Json) : Bool :=
  isObjectOrNull (block.get? (lit "input")) && !Text.isBlank (nameOf S block)

def geminiParses (part : Json) : Bool :=
  (functionCallOf part).isMapping && isObjectOrNull ((functionCallOf part).get? (lit "args")) &&
    !Text.isBlank (nameOf S (functionCallOf part))

def responsesParses (item : Json) : Bool :=
  decodes (item.get? (lit "arguments")) && !Text.isBlank (nameOf S item)

def reference (call : ToolCall) : Text := (call.callId.filter fun callId => !callId.isEmpty).getD call.toolName

variable {S}

theorem idOf_eq (values : List (Option Json)) : idOf S values = (firstTruthy values).map S.str := by
  unfold idOf
  cases h : firstTruthy values with
  | none => rfl
  | some value =>
    have hne : S.str value ≠ [] := Json.strOf_ne_nil S.reprText (Json.truthy_of_firstTruthy h)
    simp only [List.isEmpty_iff, hne, if_false, Option.map_some]

theorem parseArguments_isOk {rawArguments : Option Json} :
    (∃ arguments, parseArguments rawArguments = .ok arguments) ↔ decodes rawArguments = true := by
  unfold parseArguments decodes
  cases rawArguments.getD (.obj []) with
  | str text =>
    dsimp only
    by_cases hblank : Text.isBlank text = true
    · simp only [hblank, if_true, Bool.true_or, iff_true]
      exact ⟨_, rfl⟩
    · cases hloads : Json.loads text with
      | none => simp [hblank]
      | some value => cases value <;> simp [hblank]
  | _ => simp

theorem objectArguments_isOk {message : String} {value : Option Json} :
    (∃ arguments, objectArguments message value = .ok arguments) ↔ isObjectOrNull value = true := by
  unfold objectArguments isObjectOrNull
  cases value.getD (.obj []) <;> simp

variable {call : ToolCall} {callId : Option Text}

variable {arguments metadata : List (Text × Json)}

variable {toolName : Text}

theorem ToolCall.create_eq_ok (h : ToolCall.create toolName arguments callId metadata = .ok call) :
    call.toolName = toolName ∧ call.callId = callId := by
  unfold ToolCall.create at h
  split at h
  · cases h
    exact ⟨rfl, rfl⟩
  · cases h

theorem ToolCall.create_isOk :
    (∃ call, ToolCall.create toolName arguments callId metadata = .ok call) ↔ Text.isBlank toolName = false := by
  unfold ToolCall.create
  split <;> simp_all

theorem create_bind_eq_ok {parsed : Except Failure (List (Text × Json))}
    {metadata : List (Text × Json)}
    (h : (parsed.bind fun arguments => ToolCall.create toolName arguments callId metadata) = .ok call) :
    call.toolName = toolName ∧ call.callId = callId := by
  cases parsed with
  | error e => cases h
  | ok arguments => exact ToolCall.create_eq_ok h

theorem create_bind_isOk {parsed : Except Failure (List (Text × Json))}
    {metadata : List (Text × Json)} :
    (∃ call, (parsed.bind fun arguments => ToolCall.create toolName arguments callId metadata) = .ok call) ↔
      (∃ arguments, parsed = .ok arguments) ∧ Text.isBlank toolName = false := by
  cases parsed with
  | error e => exact ⟨fun ⟨_, h⟩ => (nomatch h), fun ⟨⟨_, h⟩, _⟩ => (nomatch h)⟩
  | ok arguments => exact ToolCall.create_isOk.trans ⟨fun h => ⟨⟨_, rfl⟩, h⟩, fun h => h.2⟩

variable {rawCall : Json}

theorem parseOpenaiToolCall_eq_ok (h : parseOpenaiToolCall S rawCall = .ok call) :
    call.toolName = nameOf S (chatFunction rawCall) ∧
      call.callId = (firstTruthy [rawCall.get? (lit "id"), rawCall.get? (lit "call_id")]).map S.str := by
  unfold parseOpenaiToolCall at h
  dsimp only at h
  split at h
  · rw [← idOf_eq]
    exact create_bind_eq_ok h
  · cases h

theorem parseOpenaiToolCall_isOk :
    (∃ call, parseOpenaiToolCall S rawCall = .ok call) ↔ chatParses S rawCall = true := by
  simp only [chatParses, Bool.and_eq_true, Bool.not_eq_true', and_assoc]
  unfold parseOpenaiToolCall
  dsimp only
  split
  case isTrue hmapping =>
    refine create_bind_isOk.trans ?_
    rw [parseArguments_isOk]
    exact ⟨fun h => ⟨hmapping, h⟩, fun h => h.2⟩
  case isFalse hmapping => exact ⟨fun ⟨_, h⟩ => (nomatch h), fun h => absurd h.1 hmapping⟩

theorem parseAnthropicToolCall_eq_ok {block : Json} (h : parseAnthropicToolCall S block = .ok call) :
    call.toolName = nameOf S block ∧ call.callId = (firstTruthy [block.get? (lit "id")]).map S.str := by
  rw [← idOf_eq]
  exact create_bind_eq_ok h

theorem parseAnthropicToolCall_isOk {block : Json} :
    (∃ call, parseAnthropicToolCall S block = .ok call) ↔ anthropicParses S block = true := by
  simp only [anthropicParses, Bool.and_eq_true, Bool.not_eq_true']
  refine create_bind_isOk.trans ?_
  rw [objectArguments_isOk]

theorem parseGeminiToolCall_eq_ok {part : Json} (h : parseGeminiToolCall S part = .ok call) :
    call.toolName = nameOf S (functionCallOf part) := by
  unfold parseGeminiToolCall at h
  dsimp only at h
  split at h
  · exact (create_bind_eq_ok h).1
  · cases h

theorem parseGeminiToolCall_isOk {part : Json} :
    (∃ call, parseGeminiToolCall S part = .ok call) ↔ geminiParses S part = true := by
  simp only [geminiParses, Bool.and_eq_true, Bool.not_eq_true', and_assoc]
  unfold parseGeminiToolCall
  dsimp only
  split
  case isTrue hmapping =>
    refine create_bind_isOk.trans ?_
    rw [objectArguments_isOk]
    exact ⟨fun h => ⟨hmapping, h⟩, fun h => h.2⟩
  case isFalse hmapping => exact ⟨fun ⟨_, h⟩ => (nomatch h), fun h => absurd h.1 hmapping⟩

variable {item : Json}

theorem parseResponsesItem_eq_ok (h : parseResponsesItem S item = .ok call) :
    call.toolName = nameOf S item ∧
      call.callId = (firstTruthy [item.get? (lit "call_id"), item.get? (lit "id")]).map S.str := by
  rw [← idOf_eq]
  exact create_bind_eq_ok h

theorem parseResponsesItem_isOk :
    (∃ call, parseResponsesItem S item = .ok call) ↔ responsesParses S item = true := by
  simp only [responsesParses, Bool.and_eq_true, Bool.not_eq_true']
  refine create_bind_isOk.trans ?_
  rw [parseArguments_isOk]

theorem writtenId_formatToolResult (call : ToolCall) (result : ToolResult) (provider : Family) :
    writtenId provider (formatToolResult S call result provider) =
      if provider = .gemini then none else some (.str (reference call)) := by
  unfold formatToolResult
  cases result.status <;> cases provider <;> rfl

/-- The reference of a call with the id that is read from `values`. -/
theorem reference_of_callId {values : List (Option Json)}
    (h : call.callId = (firstTruthy values).map S.str) :
    reference call = ((firstTruthy values).map S.str).getD call.toolName := by
  unfold reference
  rw [h]
  cases hfirst : firstTruthy values with
  | none => rfl
  | some value =>
    have hne : S.str value ≠ [] := Json.strOf_ne_nil S.reprText (Json.truthy_of_firstTruthy hfirst)
    have hkept : (fun callId : Text => !callId.isEmpty) (S.str value) = true := by
      simpa only [Bool.not_eq_true', List.isEmpty_eq_false_iff] using hne
    rw [Option.map_some, Option.filter_some, if_pos hkept]

/-! ### The walks -/

variable {calls : List ToolCall}

theorem parseEach_eq_ok {parse : Json → Except Failure ToolCall} {raws : List Json} :
    parseEach parse raws = .ok calls ↔ raws.map parse = calls.map .ok := by
  induction raws generalizing calls with
  | nil =>
    rw [parseEach, Except.ok.injEq, List.map_nil, eq_comm, eq_comm (a := []), List.map_eq_nil_iff]
  | cons raw raws ih =>
    rw [parseEach, List.map_cons]
    constructor
    · intro h
      obtain ⟨call, hcall, h⟩ := bind_eq_ok h
      obtain ⟨rest, hrest, h⟩ := bind_eq_ok h
      cases h
      rw [hcall, ih.mp hrest, List.map_cons]
    · intro h
      obtain ⟨call, rest, rfl, hcall, hrest⟩ := List.map_eq_cons_iff.mp h.symm
      rw [← hcall, ih.mpr hrest.symm]
      rfl

def typeIsHashable (item : Json) : Bool := isCallItem item ≠ .error .unhashable

def callItem (item : Json) : Bool := hasType (lit "function_call") item || hasType (lit "tool_call") item

theorem isCallItem_eq (item : Json) :
    isCallItem item = if typeIsHashable item then .ok (callItem item) else .error .unhashable := by
  unfold typeIsHashable callItem hasType isCallItem
  cases item.get? (lit "type") with
  | none => rfl
  | some value => cases value <;> rfl

theorem parseOutput_cons (hhash : typeIsHashable item = true) (items : List Json) :
    parseOutput S (item :: items) =
      if callItem item then do
        let call ← parseResponsesItem S item
        let calls ← parseOutput S items
        return call :: calls
      else parseOutput S items := by
  rw [parseOutput, isCallItem_eq, if_pos hhash]
  rfl

theorem parseOutput_eq_ok {items : List Json} :
    parseOutput S items = .ok calls ↔ (∀ item ∈ items, typeIsHashable item = true) ∧
      (items.filter callItem).map (parseResponsesItem S) = calls.map .ok := by
  rw [← parseEach_eq_ok]
  induction items generalizing calls with
  | nil => simp [parseOutput, parseEach]
  | cons item items ih =>
    rw [List.forall_mem_cons]
    by_cases hhash : typeIsHashable item = true
    case neg =>
      rw [parseOutput, isCallItem_eq, if_neg hhash]
      exact ⟨fun h => (nomatch h), fun h => absurd h.1.1 hhash⟩
    rw [parseOutput_cons hhash]
    by_cases hcall : callItem item = true
    · rw [List.filter_cons_of_pos hcall, if_pos hcall]
      constructor
      · intro h
        obtain ⟨call, hparse, h⟩ := bind_eq_ok h
        obtain ⟨rest, hrest, h⟩ := bind_eq_ok h
        obtain ⟨hitems, hrest⟩ := ih.mp hrest
        refine ⟨⟨hhash, hitems⟩, ?_⟩
        rw [parseEach, hparse, hrest]
        exact h
      · rintro ⟨⟨-, hitems⟩, h⟩
        rw [parseEach] at h
        obtain ⟨call, hparse, h⟩ := bind_eq_ok h
        obtain ⟨rest, hrest, h⟩ := bind_eq_ok h
        rw [hparse, ih.mpr ⟨hitems, hrest⟩]
        exact h
    · rw [List.filter_cons_of_neg hcall, if_neg hcall]
      exact ih.trans ⟨fun h => ⟨⟨hhash, h.1⟩, h.2⟩, fun h => ⟨h.1.2, h.2⟩⟩

def isEchoed (item : Json) : Bool := callItem item && (item.get? (lit "name")).any Json.truthy

theorem responsesToolCalls_eq_ok {items listed : List Json} :
    responsesToolCalls S items = .ok listed ↔ (∀ item ∈ items, typeIsHashable item = true) ∧
      listed = (items.filter isEchoed).map (responsesToolCall S) := by
  induction items generalizing listed with
  | nil =>
    simp only [responsesToolCalls, List.not_mem_nil, false_implies, implies_true, true_and, List.filter_nil,
      List.map_nil, Except.ok.injEq]
    exact eq_comm
  | cons item items ih =>
    rw [List.forall_mem_cons]
    by_cases hhash : typeIsHashable item = true
    case neg =>
      rw [responsesToolCalls, isCallItem_eq, if_neg hhash]
      exact ⟨fun h => (nomatch h), fun h => absurd h.1.1 hhash⟩
    have hstep : responsesToolCalls S (item :: items) = (responsesToolCalls S items).bind fun calls =>
        .ok (if callItem item && (item.get? (lit "name")).any Json.truthy then responsesToolCall S item :: calls
          else calls) := by
      rw [responsesToolCalls, isCallItem_eq, if_pos hhash]
      rfl
    have hfilter : ((item :: items).filter isEchoed).map (responsesToolCall S) =
        if callItem item && (item.get? (lit "name")).any Json.truthy then
          responsesToolCall S item :: (items.filter isEchoed).map (responsesToolCall S)
        else (items.filter isEchoed).map (responsesToolCall S) := by
      rw [List.filter_cons, isEchoed]
      split <;> rfl
    rw [hfilter, hstep]
    constructor
    · intro h
      obtain ⟨rest, hrest, h⟩ := bind_eq_ok h
      obtain ⟨hitems, rfl⟩ := ih.mp hrest
      exact ⟨⟨hhash, hitems⟩, (Except.ok.inj h).symm⟩
    · rintro ⟨⟨-, hitems⟩, rfl⟩
      rw [ih.mpr ⟨hitems, rfl⟩]
      rfl

theorem filter_named (calls : List ToolCall) : (calls.filter fun call => !call.toolName.isEmpty) = calls := by
  refine List.filter_eq_self.mpr fun call _ => ?_
  have hnamed := call.named
  cases hname : call.toolName with
  | nil =>
    rw [hname] at hnamed
    cases hnamed
  | cons c name => rfl

/-! ### Agreement, call by call -/

variable (S)

def Answers (provider : Family) (listed : Json) (parsed : Except Failure ToolCall) : Prop :=
  ∃ call, parsed = .ok call ∧ echoedName S provider listed = call.toolName ∧
    echoedId provider listed = if provider = .gemini then none else some (.str (reference call))

variable {S}

theorem forall₂_ok_iff {α β ε : Type} {P : α → β → Prop} {listed : List α} {parsed : List (Except ε β)} :
    (∃ calls : List β, parsed = calls.map .ok ∧ List.Forall₂ P listed calls) ↔
      List.Forall₂ (fun l r => ∃ call, r = .ok call ∧ P l call) listed parsed := by
  constructor
  · rintro ⟨calls, rfl, h⟩
    rw [List.forall₂_map_right_iff]
    exact h.imp fun l call hl => ⟨call, rfl, hl⟩
  · intro h
    induction h with
    | nil => exact ⟨[], rfl, List.Forall₂.nil⟩
    | cons hhead _ ih =>
      obtain ⟨call, rfl, hcall⟩ := hhead
      obtain ⟨calls, rfl, hcalls⟩ := ih
      exact ⟨call :: calls, rfl, List.Forall₂.cons hcall hcalls⟩

/-- Agreement of a turn that lists `listed` with the calls that come out as `parsed`. -/
theorem echoAgrees_iff_answers (rawPayload : Json) (provider : Family) (admitted : Prop) (listed : List Json)
    (parsed : List (Except Failure ToolCall))
    (hecho : (∃ turn, formatAssistantToolCalls S rawPayload provider = .ok turn ∧ listedCalls provider turn = listed) ∨
      ¬admitted)
    (hparse : ∀ calls, parseToolCalls S rawPayload provider = .ok calls ↔ admitted ∧ parsed = calls.map .ok) :
    EchoAgrees S rawPayload provider ↔
      admitted ∧ List.Forall₂ (Answers S provider) listed parsed ∧ (listed.map (echoedId provider)).Nodup := by
  have hrel : ∀ (turnCalls : List Json) (calls : List ToolCall),
      List.Forall₂ (fun listed call => echoedName S provider listed = call.toolName ∧
        ∀ result, echoedId provider listed = writtenId provider (formatToolResult S call result provider))
        turnCalls calls ↔
      List.Forall₂ (fun listed call => echoedName S provider listed = call.toolName ∧
        echoedId provider listed = if provider = .gemini then none else some (.str (reference call)))
        turnCalls calls := by
    intro turnCalls calls
    simp only [writtenId_formatToolResult, forall_const]
  unfold Answers
  rw [← forall₂_ok_iff]
  constructor
  · rintro ⟨turn, calls, hturn, hcalls, hmatch, hnodup⟩
    obtain ⟨hadmitted, hparsed⟩ := (hparse calls).mp hcalls
    rcases hecho with ⟨turn', hturn', rfl⟩ | hnot
    · cases hturn.symm.trans hturn'
      exact ⟨hadmitted, ⟨calls, hparsed, (hrel _ _).mp hmatch⟩, hnodup⟩
    · exact absurd hadmitted hnot
  · rintro ⟨hadmitted, ⟨calls, hparsed, hmatch⟩, hnodup⟩
    rcases hecho with ⟨turn, hturn, rfl⟩ | hnot
    · exact ⟨turn, calls, hturn, (hparse calls).mpr ⟨hadmitted, hparsed⟩, (hrel _ _).mpr hmatch, hnodup⟩
    · exact absurd hadmitted hnot

theorem parseToolCalls_eq (rawPayload : Json) (provider : Family) :
    parseToolCalls S rawPayload provider = match provider with
      | .anthropic => parseAnthropicToolCalls S rawPayload
      | .gemini => parseGeminiToolCalls S rawPayload
      | _ => parseOpenaiToolCalls S rawPayload := by
  cases rawPayload <;> cases provider <;> rfl

theorem formatAssistantToolCalls_eq (rawPayload : Json) (provider : Family) :
    formatAssistantToolCalls S rawPayload provider = match provider with
      | .anthropic => .ok (assistantTurnAnthropic rawPayload)
      | .gemini => .ok (assistantTurnGemini rawPayload)
      | _ => assistantTurnOpenai S rawPayload := by
  cases rawPayload <;> cases provider <;> rfl

theorem filter_eq_nil_of_not_any {p : Json → Bool} {items : List Json} (h : ¬items.any p = true) :
    items.filter p = [] :=
  List.filter_eq_nil_iff.mpr fun item hitem hp => h (List.any_eq_true.mpr ⟨item, hitem, hp⟩)

theorem truthy_str {text : Text} (h : text ≠ []) : (Json.str text).truthy = true := by
  simpa only [Json.truthy, Bool.not_eq_true', List.isEmpty_eq_false_iff] using h

/-! ### Anthropic -/

variable {rawPayload : Json}

theorem parseAnthropicToolCalls_eq_ok :
    parseAnthropicToolCalls S rawPayload = .ok calls ↔
      ((listAt (some rawPayload) (lit "content")).filter isToolUse).map (parseAnthropicToolCall S) =
        calls.map .ok := by
  rw [← parseEach_eq_ok, parseAnthropicToolCalls]
  constructor
  · intro h
    obtain ⟨all, hall, h⟩ := bind_eq_ok h
    rw [filter_named] at h
    cases h
    exact hall
  · intro h
    rw [h]
    exact congrArg Except.ok (filter_named calls)

variable (S)

/-- Every `tool_use` block can be run and has a text for an id, and the ids are distinct. -/
def AnthropicAgrees (rawPayload : Json) : Prop :=
  let blocks := (listAt (some rawPayload) (lit "content")).filter isToolUse
  (∀ block ∈ blocks, anthropicParses S block = true ∧ ∃ text, text ≠ [] ∧ block.get? (lit "id") = some (.str text)) ∧
    (blocks.map fun block => block.get? (lit "id")).Nodup

variable {S}

theorem reference_ne_nil (call : ToolCall) : reference call ≠ [] := by
  unfold reference
  cases hid : call.callId.filter fun callId => !callId.isEmpty with
  | none =>
    intro h
    have hnamed := call.named
    rw [show call.toolName = [] from h] at hnamed
    cases hnamed
  | some callId =>
    have hkept := (Option.filter_eq_some_iff.mp hid).2
    simpa only [Option.getD_some, ne_eq, Bool.not_eq_true', List.isEmpty_eq_false_iff] using hkept

theorem answers_anthropic {block : Json} :
    Answers S .anthropic block (parseAnthropicToolCall S block) ↔
      anthropicParses S block = true ∧ ∃ text, text ≠ [] ∧ block.get? (lit "id") = some (.str text) := by
  rw [← parseAnthropicToolCall_isOk]
  constructor
  · rintro ⟨call, hcall, -, hid⟩
    exact ⟨⟨call, hcall⟩, reference call, reference_ne_nil call, hid⟩
  · rintro ⟨⟨call, hcall⟩, text, hne, hid⟩
    obtain ⟨hname, hcallId⟩ := parseAnthropicToolCall_eq_ok hcall
    refine ⟨call, hcall, hname.symm, ?_⟩
    rw [reference_of_callId hcallId, hid, Json.firstTruthy_cons_of_truthy (truthy_str hne)]
    exact hid

theorem listedCalls_anthropic (rawPayload : Json) :
    listedCalls .anthropic (assistantTurnAnthropic rawPayload) =
      (listAt (some rawPayload) (lit "content")).filter isToolUse := by
  unfold assistantTurnAnthropic
  dsimp only
  split
  case isTrue => rfl
  case isFalse h => exact (filter_eq_nil_of_not_any h).symm

theorem echoAgrees_anthropic (rawPayload : Json) :
    EchoAgrees S rawPayload .anthropic ↔ AnthropicAgrees S rawPayload := by
  have hwalks := echoAgrees_iff_answers (S := S) rawPayload .anthropic True
    ((listAt (some rawPayload) (lit "content")).filter isToolUse)
    (((listAt (some rawPayload) (lit "content")).filter isToolUse).map (parseAnthropicToolCall S))
  rw [hwalks, List.forall₂_map_right_iff, List.forall₂_same, true_and]
  · simp only [answers_anthropic]
    rfl
  · exact Or.inl ⟨_, formatAssistantToolCalls_eq rawPayload .anthropic, listedCalls_anthropic rawPayload⟩
  · intro calls
    rw [true_and, ← parseAnthropicToolCalls_eq_ok, parseToolCalls_eq]

/-! ### Gemini -/

def candidateCalls (candidate : Json) : List Json := (candidateParts candidate).filter isFunctionCall

theorem parseGeminiToolCalls_eq_ok :
    parseGeminiToolCalls S rawPayload = .ok calls ↔
      ((listAt (some rawPayload) (lit "candidates")).flatMap candidateCalls).map (parseGeminiToolCall S) =
        calls.map .ok := by
  rw [← parseEach_eq_ok, parseGeminiToolCalls]
  constructor
  · intro h
    obtain ⟨all, hall, h⟩ := bind_eq_ok h
    rw [filter_named] at h
    cases h
    exact hall
  · intro h
    change (parseEach (parseGeminiToolCall S)
      ((listAt (some rawPayload) (lit "candidates")).flatMap candidateCalls)).bind _ = _
    rw [h]
    exact congrArg Except.ok (filter_named calls)

def echoedParts (rawPayload : Json) : List Json :=
  ((listAt (some rawPayload) (lit "candidates")).head?.map candidateCalls).getD []

theorem listedCalls_gemini (rawPayload : Json) :
    listedCalls .gemini (assistantTurnGemini rawPayload) = echoedParts rawPayload := by
  unfold assistantTurnGemini echoedParts candidateCalls candidateParts
  cases (listAt (some rawPayload) (lit "candidates")).head? with
  | none => rfl
  | some candidate =>
    rw [Option.bind_some, Option.map_some, Option.getD_some]
    cases candidate.get? (lit "content") with
    | none => rfl
    | some content =>
      dsimp only
      split
      case isTrue => rfl
      case isFalse h => exact (filter_eq_nil_of_not_any h).symm

theorem flatMap_eq_head_append {calls : Json → List Json} (choices : List Json) :
    choices.flatMap calls = (choices.head?.map calls).getD [] ++ choices.tail.flatMap calls := by
  cases choices <;> rfl

variable (S)

/-- No candidate after the first makes calls, and the first makes at most one, which can be run and has no id. -/
def GeminiAgrees (rawPayload : Json) : Prop :=
  (listAt (some rawPayload) (lit "candidates")).tail.flatMap candidateCalls = [] ∧
    (∀ part ∈ echoedParts rawPayload, geminiParses S part = true ∧
      firstTruthy [(functionCallOf part).get? (lit "id"), part.get? (lit "id")] = none) ∧
    (echoedParts rawPayload).length ≤ 1

variable {S}

theorem answers_gemini {part : Json} :
    Answers S .gemini part (parseGeminiToolCall S part) ↔
      geminiParses S part = true ∧
        firstTruthy [(functionCallOf part).get? (lit "id"), part.get? (lit "id")] = none := by
  rw [← parseGeminiToolCall_isOk]
  constructor
  · rintro ⟨call, hcall, -, hid⟩
    exact ⟨⟨call, hcall⟩, hid⟩
  · rintro ⟨⟨call, hcall⟩, hid⟩
    exact ⟨call, hcall, (parseGeminiToolCall_eq_ok hcall).symm, hid⟩

theorem exists_of_forall₂ {α β : Type} {P : α → β → Prop} {listed : List α} {parsed : List β}
    (h : List.Forall₂ P listed parsed) {a : α} (ha : a ∈ listed) : ∃ b ∈ parsed, P a b := by
  induction h with
  | nil => cases ha
  | cons hhead _ ih =>
    rcases List.mem_cons.mp ha with rfl | ha
    · exact ⟨_, List.mem_cons_self, hhead⟩
    · obtain ⟨b, hb, hab⟩ := ih ha
      exact ⟨b, List.mem_cons_of_mem _ hb, hab⟩

theorem forall₂_append_iff {α β : Type} {P : α → β → Prop} {listed : List α} {first later : List β}
    (hlength : listed.length = first.length) :
    List.Forall₂ P listed (first ++ later) ↔ later = [] ∧ List.Forall₂ P listed first := by
  constructor
  · intro h
    have hlater : later = [] := by
      have hall := h.length_eq
      rw [List.length_append, hlength] at hall
      exact List.eq_nil_of_length_eq_zero (by omega)
    rw [hlater, List.append_nil] at h
    exact ⟨hlater, h⟩
  · rintro ⟨rfl, h⟩
    rwa [List.append_nil]

theorem nodup_map_const {α β : Type} {f : α → β} {b : β} {items : List α} (h : ∀ item ∈ items, f item = b) :
    (items.map f).Nodup ↔ items.length ≤ 1 := by
  rw [List.map_congr_left h, List.map_const', List.nodup_replicate]

theorem echoAgrees_gemini (rawPayload : Json) : EchoAgrees S rawPayload .gemini ↔ GeminiAgrees S rawPayload := by
  have hwalks := echoAgrees_iff_answers (S := S) rawPayload .gemini True (echoedParts rawPayload)
    (((listAt (some rawPayload) (lit "candidates")).flatMap candidateCalls).map (parseGeminiToolCall S))
  rw [hwalks, true_and, flatMap_eq_head_append, List.map_append]
  · have hlength : (echoedParts rawPayload).length =
        ((echoedParts rawPayload).map (parseGeminiToolCall S)).length := (List.length_map _).symm
    change (List.Forall₂ (Answers S .gemini) (echoedParts rawPayload)
      ((echoedParts rawPayload).map (parseGeminiToolCall S) ++ _) ∧ _) ↔ _
    rw [forall₂_append_iff hlength, List.map_eq_nil_iff, List.forall₂_map_right_iff, List.forall₂_same, and_assoc]
    simp only [answers_gemini]
    refine and_congr_right fun _ => and_congr_right fun hparts => ?_
    exact nodup_map_const fun part hpart => (hparts part hpart).2
  · exact Or.inl ⟨_, formatAssistantToolCalls_eq rawPayload .gemini, listedCalls_gemini rawPayload⟩
  · intro calls
    rw [true_and, ← parseGeminiToolCalls_eq_ok, parseToolCalls_eq]

/-! ### Chat and Responses -/

def mappingCalls (choice : Json) : List Json := (choiceCalls choice).filter Json.isMapping

theorem parseOpenaiToolCalls_eq_ok :
    parseOpenaiToolCalls S rawPayload = .ok calls ↔
      (∀ item ∈ listAt (some rawPayload) (lit "output"), typeIsHashable item = true) ∧
        ((listAt (some rawPayload) (lit "output")).filter callItem).map (parseResponsesItem S) ++
          ((listAt (some rawPayload) (lit "choices")).flatMap mappingCalls).map (parseOpenaiToolCall S) =
            calls.map .ok := by
  rw [parseOpenaiToolCalls]
  constructor
  · intro h
    obtain ⟨fromOutput, houtput, h⟩ := bind_eq_ok h
    obtain ⟨fromChoices, hchoices, h⟩ := bind_eq_ok h
    rw [filter_named] at h
    cases h
    obtain ⟨hhash, houtput⟩ := parseOutput_eq_ok.mp houtput
    refine ⟨hhash, ?_⟩
    rw [houtput, List.map_append]
    exact congrArg _ (parseEach_eq_ok.mp hchoices)
  · rintro ⟨hhash, h⟩
    obtain ⟨fromOutput, fromChoices, rfl, houtput, hchoices⟩ := List.map_eq_append_iff.mp h.symm
    rw [parseOutput_eq_ok.mpr ⟨hhash, houtput.symm⟩]
    change (parseEach (parseOpenaiToolCall S)
      ((listAt (some rawPayload) (lit "choices")).flatMap mappingCalls)).bind _ = _
    rw [parseEach_eq_ok.mpr hchoices.symm]
    exact congrArg Except.ok (filter_named (fromOutput ++ fromChoices))

variable (S)

/-- The id of a chat call: `id`, else `call_id`, else the name. -/
def chatId (rawCall : Json) : Text :=
  S.str ((firstTruthy [rawCall.get? (lit "id"), rawCall.get? (lit "call_id")]).getD
    (((chatFunction rawCall).get? (lit "name")).getD (.str [])))

/-- A chat call whose echo and result go together: it can be run, and an id that it has is a text. -/
def ChatCallAgrees (rawCall : Json) : Prop :=
  rawCall.isMapping = true ∧ chatParses S rawCall = true ∧
    ∀ value, rawCall.get? (lit "id") = some value → value.truthy = true → ∃ text, value = .str text

def firstCalls (rawPayload : Json) : List Json :=
  ((listAt (some rawPayload) (lit "choices")).head?.map choiceCalls).getD []

/-- No choice after the first makes calls, and those of the first go together with their results. -/
def ChatAgrees (rawPayload : Json) : Prop :=
  (listAt (some rawPayload) (lit "choices")).tail.flatMap mappingCalls = [] ∧
    (∀ rawCall ∈ firstCalls rawPayload, ChatCallAgrees S rawCall) ∧
    ((firstCalls rawPayload).map (chatId S)).Nodup

/-- Every call item has a name and can be run, their ids are distinct, and no choice makes calls next to them. -/
def ResponsesAgrees (rawPayload : Json) (output : List Json) : Prop :=
  (∀ item ∈ output, typeIsHashable item = true) ∧
    (listAt (some rawPayload) (lit "choices")).flatMap mappingCalls = [] ∧
    (∀ item ∈ output.filter callItem,
      (item.get? (lit "name")).any Json.truthy = true ∧ responsesParses S item = true) ∧
    ((output.filter callItem).map (responsesId S)).Nodup

variable {S}

theorem get?_id_echoedChatToolCall (hmapping : rawCall.isMapping = true)
    (htext : ∀ value, rawCall.get? (lit "id") = some value → value.truthy = true → ∃ text, value = .str text)
    (hfunction : (chatFunction rawCall).isMapping = true) :
    (echoedChatToolCall S rawCall).get? (lit "id") = some (.str (chatId S rawCall)) := by
  unfold echoedChatToolCall chatId
  rw [hmapping]
  by_cases htruthy : ((rawCall.get? (lit "id")).any Json.truthy) = true
  · rw [htruthy, if_pos (by rfl)]
    obtain ⟨value, hvalue, hv⟩ := (Option.any_eq_true _ _).mp htruthy
    obtain ⟨text, rfl⟩ := htext value hvalue hv
    rw [hvalue, Json.firstTruthy_cons_of_truthy hv]
    rfl
  · have hnot := Bool.eq_false_iff.mpr htruthy
    rw [hnot, if_neg (by decide), Json.firstTruthy_cons_of_not hnot]
    have hname : (if ((rawCall.get? (lit "function")).getD rawCall).isMapping then
        (((rawCall.get? (lit "function")).getD rawCall).get? (lit "name")).getD (.str []) else .str []) =
          ((chatFunction rawCall).get? (lit "name")).getD (.str []) := if_pos hfunction
    dsimp only
    rw [hname, Json.get?_set_self hmapping]

theorem nameOf_chatFunction_echoed (rawCall : Json) :
    nameOf S (chatFunction (echoedChatToolCall S rawCall)) = nameOf S (chatFunction rawCall) := by
  unfold echoedChatToolCall
  split
  case isTrue => rfl
  case isFalse =>
    dsimp only
    generalize S.str _ = callId
    have hfunction : (rawCall.set (lit "id") (.str callId)).get? (lit "function") = rawCall.get? (lit "function") :=
      Json.get?_set_of_ne rawCall (by decide) _
    have hname : (rawCall.set (lit "id") (.str callId)).get? (lit "name") = rawCall.get? (lit "name") :=
      Json.get?_set_of_ne rawCall (by decide) _
    unfold chatFunction nameOf
    rw [hfunction]
    cases rawCall.get? (lit "function") with
    | none => rw [Option.getD_none, Option.getD_none, hname]
    | some function => rfl

theorem reference_eq_chatId (h : parseOpenaiToolCall S rawCall = .ok call) :
    reference call = chatId S rawCall := by
  obtain ⟨hname, hcallId⟩ := parseOpenaiToolCall_eq_ok h
  rw [reference_of_callId hcallId, hname, chatId]
  cases firstTruthy [rawCall.get? (lit "id"), rawCall.get? (lit "call_id")] <;> rfl

theorem isMapping_chatFunction (h : chatParses S rawCall = true) :
    (chatFunction rawCall).isMapping = true := by
  simp only [chatParses, Bool.and_eq_true] at h
  exact h.1.1

theorem isMapping_of_answers {parsed : Except Failure ToolCall}
    (h : Answers S .openai (echoedChatToolCall S rawCall) parsed) : rawCall.isMapping = true := by
  obtain ⟨call, -, -, hid⟩ := h
  change (echoedChatToolCall S rawCall).get? (lit "id") = some (.str (reference call)) at hid
  by_contra hmapping
  rw [Bool.not_eq_true] at hmapping
  have hkept : echoedChatToolCall S rawCall = rawCall := by
    unfold echoedChatToolCall
    rw [hmapping]
    rfl
  rw [hkept] at hid
  cases rawCall with
  | obj members => cases hmapping
  | _ => cases hid

theorem answers_chat :
    Answers S .openai (echoedChatToolCall S rawCall) (parseOpenaiToolCall S rawCall) ↔ ChatCallAgrees S rawCall := by
  unfold ChatCallAgrees
  rw [← parseOpenaiToolCall_isOk]
  constructor
  · intro h
    refine ⟨isMapping_of_answers h, ?_⟩
    obtain ⟨call, hcall, -, hid⟩ := h
    change (echoedChatToolCall S rawCall).get? (lit "id") = some (.str (reference call)) at hid
    refine ⟨⟨call, hcall⟩, fun value hvalue htruthy => ?_⟩
    have hkept : echoedChatToolCall S rawCall = rawCall := by
      unfold echoedChatToolCall
      rw [hvalue, Option.any_some, htruthy, Bool.or_true]
      rfl
    rw [hkept, hvalue] at hid
    exact ⟨_, Option.some.inj hid⟩
  · rintro ⟨hmapping, ⟨call, hcall⟩, htext⟩
    have hfunction := isMapping_chatFunction (parseOpenaiToolCall_isOk.mp ⟨call, hcall⟩)
    refine ⟨call, hcall, ?_, ?_⟩
    · exact (nameOf_chatFunction_echoed rawCall).trans (parseOpenaiToolCall_eq_ok hcall).1.symm
    · rw [reference_eq_chatId hcall]
      exact get?_id_echoedChatToolCall hmapping htext hfunction

theorem reference_eq_responsesId (h : parseResponsesItem S item = .ok call) :
    reference call = responsesId S item := by
  obtain ⟨hname, hcallId⟩ := parseResponsesItem_eq_ok h
  rw [reference_of_callId hcallId, hname, responsesId]
  cases firstTruthy [item.get? (lit "call_id"), item.get? (lit "id")] <;> rfl

theorem answers_responses :
    Answers S .openai (responsesToolCall S item) (parseResponsesItem S item) ↔ responsesParses S item = true := by
  rw [← parseResponsesItem_isOk]
  constructor
  · rintro ⟨call, hcall, -⟩
    exact ⟨call, hcall⟩
  · rintro ⟨call, hcall⟩
    refine ⟨call, hcall, (parseResponsesItem_eq_ok hcall).1.symm, ?_⟩
    rw [reference_eq_responsesId hcall]
    rfl

theorem listedCalls_responses {output listed : List Json} {turn : Option Json}
    (hlisted : responsesToolCalls S output = .ok listed) (hturn : assistantTurnOpenaiResponses S output = .ok turn) :
    listedCalls .openai turn = listed := by
  rw [assistantTurnOpenaiResponses, hlisted] at hturn
  cases listed with
  | nil =>
    cases hturn
    rfl
  | cons call calls =>
    cases hturn
    rfl

theorem filter_isEchoed (output : List Json) :
    output.filter isEchoed = (output.filter callItem).filter fun item => (item.get? (lit "name")).any Json.truthy := by
  rw [List.filter_filter]
  refine List.filter_congr fun item _ => ?_
  rw [isEchoed, Bool.and_comm]

theorem exists_assistantTurnOpenaiResponses {output listed : List Json}
    (hlisted : responsesToolCalls S output = .ok listed) :
    ∃ turn, assistantTurnOpenaiResponses S output = .ok turn ∧ listedCalls .openai turn = listed := by
  have hturn : ∃ turn, assistantTurnOpenaiResponses S output = .ok turn := by
    rw [assistantTurnOpenaiResponses, hlisted]
    cases listed <;> exact ⟨_, rfl⟩
  obtain ⟨turn, hturn⟩ := hturn
  exact ⟨turn, hturn, listedCalls_responses hlisted hturn⟩

theorem echoAgrees_responses {output : List Json}
    (houtput : (rawPayload.get? (lit "output")).bind Json.items? = some output) :
    EchoAgrees S rawPayload .openai ↔ ResponsesAgrees S rawPayload output := by
  have hat : listAt (some rawPayload) (lit "output") = output := by
    rw [listAt, Option.bind_some, houtput, Option.getD_some]
  have hwalks := echoAgrees_iff_answers (S := S) rawPayload .openai (∀ item ∈ output, typeIsHashable item = true)
    ((output.filter isEchoed).map (responsesToolCall S))
    ((output.filter callItem).map (parseResponsesItem S) ++
      ((listAt (some rawPayload) (lit "choices")).flatMap mappingCalls).map (parseOpenaiToolCall S))
  rw [hwalks]
  · have hids : ((output.filter isEchoed).map (responsesToolCall S)).map (echoedId .openai) =
        ((output.filter isEchoed).map (responsesId S)).map fun callId => some (.str callId) := by
      rw [List.map_map, List.map_map]
      rfl
    have hinj : Function.Injective fun callId : Text => some (Json.str callId) := fun a b h => by
      cases h
      rfl
    rw [hids, List.nodup_map_iff hinj, filter_isEchoed]
    refine and_congr_right fun _ => ?_
    constructor
    · rintro ⟨hall, hnodup⟩
      -- no more can be listed than there are call items, and all parsed calls are listed
      have hlength := hall.length_eq
      have hle := List.length_filter_le (fun item : Json => (item.get? (lit "name")).any Json.truthy)
        (output.filter callItem)
      simp only [List.length_map, List.length_append] at hlength
      have hnamed : (output.filter callItem).filter (fun item => (item.get? (lit "name")).any Json.truthy) =
          output.filter callItem :=
        List.filter_sublist.eq_of_length (by omega)
      rw [hnamed] at hall hnodup
      obtain ⟨hlater, hall⟩ := (forall₂_append_iff (by simp only [List.length_map])).mp hall
      rw [List.forall₂_map_right_iff, List.forall₂_map_left_iff, List.forall₂_same] at hall
      refine ⟨List.map_eq_nil_iff.mp hlater, fun item hitem => ⟨?_, answers_responses.mp (hall item hitem)⟩, hnodup⟩
      exact List.filter_eq_self.mp hnamed item hitem
    · rintro ⟨hlater, hitems, hnodup⟩
      have hnamed : (output.filter callItem).filter (fun item => (item.get? (lit "name")).any Json.truthy) =
          output.filter callItem := List.filter_eq_self.mpr fun item hitem => (hitems item hitem).1
      rw [hnamed, hlater, List.map_nil, List.append_nil, List.forall₂_map_right_iff, List.forall₂_map_left_iff,
        List.forall₂_same]
      exact ⟨fun item hitem => answers_responses.mpr (hitems item hitem).2, hnodup⟩
  · by_cases hhash : ∀ item ∈ output, typeIsHashable item = true
    · refine Or.inl ?_
      obtain ⟨turn, hturn, hlisted⟩ :=
        exists_assistantTurnOpenaiResponses (responsesToolCalls_eq_ok.mpr ⟨hhash, rfl⟩)
      refine ⟨turn, ?_, hlisted⟩
      rw [formatAssistantToolCalls_eq]
      dsimp only
      rw [assistantTurnOpenai, houtput]
      exact hturn
    · exact Or.inr hhash
  · intro calls
    rw [parseToolCalls_eq]
    dsimp only
    rw [parseOpenaiToolCalls_eq_ok, hat]

theorem listedCalls_chat (houtput : (rawPayload.get? (lit "output")).bind Json.items? = none) :
    ∃ turn, formatAssistantToolCalls S rawPayload .openai = .ok turn ∧
      listedCalls .openai turn = (firstCalls rawPayload).map (echoedChatToolCall S) := by
  rw [formatAssistantToolCalls_eq]
  dsimp only
  unfold assistantTurnOpenai firstCalls choiceCalls
  rw [houtput]
  dsimp only
  cases (listAt (some rawPayload) (lit "choices")).head? with
  | none => exact ⟨none, rfl, rfl⟩
  | some choice =>
    rw [Option.bind_some, Option.map_some, Option.getD_some]
    cases choice.get? (lit "message") with
    | none => exact ⟨none, rfl, rfl⟩
    | some message =>
      refine ⟨_, rfl, ?_⟩
      unfold listedCalls listAt
      dsimp only
      rw [Option.bind_some]
      cases hcalls : (message.get? (lit "tool_calls")).bind Json.items? with
      | none => rfl
      | some calls =>
        have hmapping : message.isMapping = true := by
          cases message with
          | obj members => rfl
          | _ => cases hcalls
        rw [Option.map_some, Option.bind_some, Json.get?_set_self hmapping]
        rfl

theorem echoAgrees_chat (houtput : (rawPayload.get? (lit "output")).bind Json.items? = none) :
    EchoAgrees S rawPayload .openai ↔ ChatAgrees S rawPayload := by
  have hat : listAt (some rawPayload) (lit "output") = [] := by
    rw [listAt, Option.bind_some, houtput, Option.getD_none]
  have hwalks := echoAgrees_iff_answers (S := S) rawPayload .openai True
    ((firstCalls rawPayload).map (echoedChatToolCall S))
    (((listAt (some rawPayload) (lit "choices")).flatMap mappingCalls).map (parseOpenaiToolCall S))
  have hfirst : ((listAt (some rawPayload) (lit "choices")).head?.map mappingCalls).getD [] =
      (firstCalls rawPayload).filter Json.isMapping := by
    unfold firstCalls mappingCalls
    cases (listAt (some rawPayload) (lit "choices")).head? <;> rfl
  have hids : (∀ rawCall ∈ firstCalls rawPayload, ChatCallAgrees S rawCall) →
      (((firstCalls rawPayload).map (echoedChatToolCall S)).map (echoedId .openai)).Nodup =
        ((firstCalls rawPayload).map (chatId S)).Nodup := by
    intro hcalls
    have hinj : Function.Injective fun callId : Text => some (Json.str callId) := fun a b h => by
      cases h
      rfl
    rw [← List.nodup_map_iff hinj, List.map_map, List.map_map]
    refine congrArg _ (List.map_congr_left fun rawCall hcall => ?_)
    obtain ⟨hmapping, hparses, htext⟩ := hcalls rawCall hcall
    exact get?_id_echoedChatToolCall hmapping htext (isMapping_chatFunction hparses)
  rw [hwalks, true_and, flatMap_eq_head_append, hfirst, List.map_append]
  · constructor
    · rintro ⟨hall, hnodup⟩
      -- an entry that is no mapping would have an id to answer to
      have hmapping : (firstCalls rawPayload).filter Json.isMapping = firstCalls rawPayload := by
        refine List.filter_eq_self.mpr fun rawCall hcall => ?_
        obtain ⟨parsed, -, hanswers⟩ := exists_of_forall₂ hall (List.mem_map_of_mem hcall)
        exact isMapping_of_answers hanswers
      rw [hmapping] at hall
      obtain ⟨hlater, hall⟩ := (forall₂_append_iff (by simp only [List.length_map])).mp hall
      rw [List.forall₂_map_right_iff, List.forall₂_map_left_iff, List.forall₂_same] at hall
      have hcalls : ∀ rawCall ∈ firstCalls rawPayload, ChatCallAgrees S rawCall := fun rawCall hcall =>
        answers_chat.mp (hall rawCall hcall)
      exact ⟨List.map_eq_nil_iff.mp hlater, hcalls, hids hcalls ▸ hnodup⟩
    · rintro ⟨hlater, hcalls, hnodup⟩
      have hmapping : (firstCalls rawPayload).filter Json.isMapping = firstCalls rawPayload :=
        List.filter_eq_self.mpr fun rawCall hcall => (hcalls rawCall hcall).1
      rw [hmapping, hlater, List.map_nil, List.append_nil, List.forall₂_map_right_iff, List.forall₂_map_left_iff,
        List.forall₂_same]
      exact ⟨fun rawCall hcall => answers_chat.mpr (hcalls rawCall hcall), (hids hcalls).symm ▸ hnodup⟩
  · exact Or.inl (listedCalls_chat houtput)
  · intro calls
    rw [parseToolCalls_eq]
    dsimp only
    rw [parseOpenaiToolCalls_eq_ok, hat]
    simp only [List.not_mem_nil, false_implies, implies_true, List.filter_nil, List.map_nil, List.nil_append]

/-! ### When echo and answer agree -/

variable (S)

def AgreesWhen (rawPayload : Json) : Family → Prop
  | .anthropic => AnthropicAgrees S rawPayload
  | .gemini => GeminiAgrees S rawPayload
  | _ =>
    match (rawPayload.get? (lit "output")).bind Json.items? with
    | some output => ResponsesAgrees S rawPayload output
    | none => ChatAgrees S rawPayload

variable {S}

theorem agreesWhen_openai (rawPayload : Json) :
    EchoAgrees S rawPayload .openai ↔ AgreesWhen S rawPayload .openai := by
  unfold AgreesWhen
  cases houtput : (rawPayload.get? (lit "output")).bind Json.items? with
  | some output => exact echoAgrees_responses houtput
  | none => exact echoAgrees_chat houtput

/-- Echo and answer agree on exactly these payloads. -/
theorem echoAgrees_iff (S : Strings) (rawPayload : Json) (provider : Family) :
    EchoAgrees S rawPayload provider ↔ AgreesWhen S rawPayload provider := by
  cases provider with
  | anthropic => exact echoAgrees_anthropic rawPayload
  | gemini => exact echoAgrees_gemini rawPayload
  | openai => exact agreesWhen_openai rawPayload
  | xai => exact agreesWhen_openai rawPayload

def plainCall (callId name : Text) : Json :=
  .obj [(lit "id", .str callId), (lit "type", .str (lit "function")), (lit "function", .obj [(lit "name", .str name)])]

def twoChoices : Json :=
  .obj [(lit "choices", .arr [
    .obj [(lit "message", .obj [(lit "tool_calls", .arr [plainCall (lit "c1") (lit "search")])])],
    .obj [(lit "message", .obj [(lit "tool_calls", .arr [plainCall (lit "c2") (lit "search")])])]])]

def plainStrings : Strings where
  reprText text := Json.quote :: text ++ [Json.quote]
  lower text := text

/-- Both calls are run, and only the first is echoed. -/
theorem twoChoices_disagrees : ¬EchoAgrees plainStrings twoChoices .openai := by
  intro h
  have hlater := ((echoAgrees_chat rfl).mp h).1
  exact absurd (congrArg List.length hlater) (by decide)

end VidbyteSdk.Tools.Formatter
