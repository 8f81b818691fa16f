import VidbyteSdk.Lib.Checks
import VidbyteSdk.Middleware.Compaction.Messages

/-!
# Writing a tool result back

A strategy rewrites the text of a message, and the engine writes that text into the provider message it was read from.
Reading joins the texts of all blocks or parts, writing sets the first block, or every part. `WritesBack` says that the
text and everything else about the result come through, and `Writable` for which messages and texts it does.
-/

namespace VidbyteSdk.Middleware.Compaction

open VidbyteSdk.Lib
open Json (lit firstTruthy)

/-- What a tool result holds beside its text: the ids, tools and error markers of the message, of each of its
`tool_result` blocks and of each of its function responses. -/
structure ResultData where
  callId : Option Json
  name : Option Json
  toolName : Option Json
  -- the id and the error flag of every block
  blocks : List (Option Json × Option Json)
  -- the id, the tool and the status of every response
  responses : List (Option Json × Option Json × Option Json)
  errorText : Bool

def resultData (message : Json) : ResultData where
  callId := message.get? (lit "tool_call_id")
  name := message.get? (lit "name")
  toolName := message.get? (lit "tool_name")
  blocks := ((listOf (message.get? (lit "content"))).filter (hasType (lit "tool_result"))).map fun block =>
    (block.get? (lit "tool_use_id"), block.get? (lit "is_error"))
  responses := ((listOf (message.get? (lit "parts"))).filterMap responseOf).map fun response =>
    (response.get? (lit "id"), response.get? (lit "name"), responseStatus response)
  errorText := isErrorText (message.get? (lit "content"))

variable (B : Builtins)

/-- The message that is written is read back as `content`, with the same data beside it. -/
def WritesBack (message : ContextMessage) (original : Json) : Prop :=
  ∃ written, contextMessageToProvider B message = some written ∧
    providerMessageContent B written = message.content ∧ resultData written = resultData original

/-- A part with a function response, whose response takes a text and has the status it had. -/
def WritablePart (part : Json) : Prop :=
  ∃ functionResponse response, part.get? (lit "functionResponse") = some (.obj functionResponse) ∧
    B.dict ((functionResponse.lookup (lit "response")).getD (.obj [])) = some response ∧
    response.lookup (lit "status") = responseStatus (.obj functionResponse)

/-- A text that can be written into a message: into a string that is the text of an error as much as it; into a lone
`tool_result` block or a lone part with a function response; or in place of text blocks with no others beside them. -/
def Writable (original : Json) (content : Text) : Prop :=
  match original.get? (lit "content") with
  | some (.str text) => isErrorText (some (.str content)) = isErrorText (some (.str text))
  | some (.arr items) =>
    if items.any (hasType (lit "tool_result")) then items.length = 1
    else if (items.filter isStructured).isEmpty then isErrorText (some (.str content)) = false
    else content = [] ∧ joinLines ((items.filter isStructured).map (itemText B)) = []
  | _ =>
    match original.get? (lit "parts") with
    | some (.arr parts) => ∃ part, parts = [part] ∧ WritablePart B part
    | _ => isErrorText (some (.str content)) = false

variable {B}

/-! ### Reading what was set -/

theorem content_ne_others : lit "tool_call_id" ≠ lit "content" ∧ lit "name" ≠ lit "content" ∧
    lit "tool_name" ≠ lit "content" ∧ lit "parts" ≠ lit "content" := by decide

theorem parts_ne_others : lit "tool_call_id" ≠ lit "parts" ∧ lit "name" ≠ lit "parts" ∧
    lit "tool_name" ≠ lit "parts" ∧ lit "content" ≠ lit "parts" := by decide

variable {message : Json}

theorem resultData_set_content (hm : message.isMapping = true) (value : Json) :
    resultData (message.set (lit "content") value) =
      { resultData message with
        blocks := ((listOf (some value)).filter (hasType (lit "tool_result"))).map fun block =>
          (block.get? (lit "tool_use_id"), block.get? (lit "is_error"))
        errorText := isErrorText (some value) } := by
  obtain ⟨hid, hname, htool, hparts⟩ := content_ne_others
  simp only [resultData, Json.get?_set_self hm, Json.get?_set_of_ne message hid, Json.get?_set_of_ne message hname,
    Json.get?_set_of_ne message htool, Json.get?_set_of_ne message hparts]

theorem resultData_set_parts (hm : message.isMapping = true) (parts : List Json) :
    resultData (message.set (lit "parts") (.arr parts)) =
      { resultData message with
        responses := (parts.filterMap responseOf).map fun response =>
          (response.get? (lit "id"), response.get? (lit "name"), responseStatus response) } := by
  obtain ⟨hid, hname, htool, hcontent⟩ := parts_ne_others
  simp only [resultData, Json.get?_set_self hm, Json.get?_set_of_ne message hid, Json.get?_set_of_ne message hname,
    Json.get?_set_of_ne message htool, Json.get?_set_of_ne message hcontent, listOf, Option.bind_some, Json.items?,
    Option.getD_some]

theorem providerMessageContent_set_str (hm : message.isMapping = true) (content : Text) :
    providerMessageContent B (message.set (lit "content") (.str content)) = content := by
  unfold providerMessageContent
  rw [Json.get?_set_self hm]

theorem providerMessageContent_set_arr (hm : message.isMapping = true) (items : List Json) :
    providerMessageContent B (message.set (lit "content") (.arr items)) = joinLines (items.map (itemText B)) := by
  unfold providerMessageContent
  rw [Json.get?_set_self hm]

theorem itemText_set {item : Json} (hm : item.isMapping = true) (content : Text) :
    itemText B (item.set (lit "content") (.str content)) = content := by
  unfold itemText
  rw [Json.get?_set_self hm]
  rfl

theorem isMapping_of_hasType {name : Text} {item : Json} (h : hasType name item = true) : item.isMapping = true := by
  cases item with
  | obj members => rfl
  | _ => cases h

theorem hasType_set {name key : Text} (hkey : lit "type" ≠ key) (item value : Json) :
    hasType name (item.set key value) = hasType name item := by
  unfold hasType
  rw [Json.get?_set_of_ne item hkey]

/-! ### Lists of blocks -/

variable {content : Text}

theorem setFirstResult_spec {items written : List Json}
    (h : setFirstResult content items = some written) :
    content ∈ written.map (itemText B) ∧ written.length = items.length ∧
      (written.filter (hasType (lit "tool_result"))).map (fun block =>
          (block.get? (lit "tool_use_id"), block.get? (lit "is_error"))) =
        (items.filter (hasType (lit "tool_result"))).map fun block =>
          (block.get? (lit "tool_use_id"), block.get? (lit "is_error")) := by
  induction items generalizing written with
  | nil => cases h
  | cons item items ih =>
    rw [setFirstResult] at h
    split at h
    case isTrue hresult =>
      cases h
      have hset : hasType (lit "tool_result") (item.set (lit "content") (.str content)) = true := by
        rwa [hasType_set (by decide)]
      refine ⟨?_, rfl, ?_⟩
      · rw [List.map_cons, itemText_set (isMapping_of_hasType hresult)]
        exact List.mem_cons_self
      · rw [List.filter_cons_of_pos hset, List.filter_cons_of_pos hresult, List.map_cons, List.map_cons,
          Json.get?_set_of_ne item (by decide), Json.get?_set_of_ne item (by decide)]
    case isFalse hresult =>
      obtain ⟨rest, hrest, rfl⟩ := Option.map_eq_some_iff.mp h
      obtain ⟨hmem, hlength, hblocks⟩ := ih hrest
      refine ⟨List.mem_cons_of_mem _ hmem, congrArg Nat.succ hlength, ?_⟩
      rw [List.filter_cons_of_neg hresult, List.filter_cons_of_neg hresult, hblocks]

theorem setFirstResult_isSome (content : Text) (items : List Json) :
    (setFirstResult content items).isSome = items.any (hasType (lit "tool_result")) := by
  induction items with
  | nil => rfl
  | cons item items ih =>
    rw [setFirstResult, List.any_cons]
    cases hasType (lit "tool_result") item with
    | true => rfl
    | false => rw [if_neg Bool.false_ne_true, Option.isSome_map, ih, Bool.false_or]

theorem joinLines_eq_iff_of_mem {text : Text} {texts : List Text} (h : text ∈ texts) :
    joinLines texts = text ↔ texts.length = 1 := by
  constructor
  · intro heq
    by_contra hmany
    exact absurd (congrArg List.length heq) (length_lt_joinLines h hmany).ne'
  · intro hone
    obtain ⟨only, rfl⟩ := List.length_eq_one_iff.mp hone
    rw [List.mem_singleton.mp h, joinLines_singleton]

/-! ### Each shape of message -/

variable (B)

/-- A replaced text that is read back, with the same data beside it. -/
def Replaces (original : Json) (content : Text) : Prop :=
  ∃ written, replaceProviderContent B original content = some written ∧
    providerMessageContent B written = content ∧ resultData written = resultData original

variable {B}

variable {original : Json}

theorem replaces_str {content text : Text} (hm : original.isMapping = true)
    (h : original.get? (lit "content") = some (.str text)) :
    Replaces B original content ↔ isErrorText (some (.str content)) = isErrorText (some (.str text)) := by
  have hreplace : replaceProviderContent B original content = some (original.set (lit "content") (.str content)) := by
    unfold replaceProviderContent
    rw [h]
  have hdata : resultData (original.set (lit "content") (.str content)) =
      { resultData original with errorText := isErrorText (some (.str content)) } := by
    rw [resultData_set_content hm]
    simp only [resultData, h, listOf, Option.bind_some, Json.items?, Option.getD_none]
  constructor
  · rintro ⟨written, hwritten, -, hsame⟩
    cases hreplace.symm.trans hwritten
    have herror := congrArg ResultData.errorText (hdata.symm.trans hsame)
    rwa [resultData, h] at herror
  · intro herror
    refine ⟨_, hreplace, providerMessageContent_set_str hm content, ?_⟩
    rw [hdata, herror, resultData, h]

variable {items : List Json}

theorem replaces_results (hm : original.isMapping = true)
    (h : original.get? (lit "content") = some (.arr items)) (hresult : items.any (hasType (lit "tool_result")) = true) :
    Replaces B original content ↔ items.length = 1 := by
  obtain ⟨blocks, hblocks⟩ := Option.isSome_iff_exists.mp ((setFirstResult_isSome content items).trans hresult)
  have hreplace : replaceProviderContent B original content = some (original.set (lit "content") (.arr blocks)) := by
    unfold replaceProviderContent
    simp only [h, hblocks]
  obtain ⟨hmem, hlength, hkept⟩ := setFirstResult_spec (B := B) hblocks
  have hread := joinLines_eq_iff_of_mem hmem
  rw [List.length_map, hlength] at hread
  constructor
  · rintro ⟨written, hwritten, hcontent, -⟩
    cases hreplace.symm.trans hwritten
    rw [providerMessageContent_set_arr hm] at hcontent
    exact hread.mp hcontent
  · intro hone
    refine ⟨_, hreplace, ?_, ?_⟩
    · rw [providerMessageContent_set_arr hm]
      exact hread.mpr hone
    · rw [resultData_set_content hm]
      simp only [listOf, Option.bind_some, Json.items?, Option.getD_some, hkept]
      simp only [resultData, h, listOf, Option.bind_some, Json.items?, Option.getD_some, isErrorText]

theorem filter_isStructured_results (hresult : items.any (hasType (lit "tool_result")) = false) :
    (items.filter isStructured).filter (hasType (lit "tool_result")) = [] := by
  refine List.filter_eq_nil_iff.mpr fun item hitem => ?_
  have hmem : item ∈ items := List.mem_of_mem_filter hitem
  exact List.any_eq_false.mp hresult item hmem

theorem replaces_blocks (hm : original.isMapping = true)
    (h : original.get? (lit "content") = some (.arr items)) (hresult : items.any (hasType (lit "tool_result")) = false) :
    Replaces B original content ↔
      if (items.filter isStructured).isEmpty then isErrorText (some (.str content)) = false
      else content = [] ∧ joinLines ((items.filter isStructured).map (itemText B)) = [] := by
  have hnone : setFirstResult content items = none :=
    Option.not_isSome_iff_eq_none.mp (by rw [setFirstResult_isSome, hresult]; exact Bool.false_ne_true)
  have hreplace : replaceProviderContent B original content =
      some (original.set (lit "content") (setTextBlocks content items)) := by
    unfold replaceProviderContent
    simp only [h, hnone]
  have hblocks : (listOf (some (.arr items))).filter (hasType (lit "tool_result")) = [] :=
    List.filter_eq_nil_iff.mpr (List.any_eq_false.mp hresult)
  have hbefore : resultData original = { resultData original with blocks := [], errorText := false } := by
    simp only [resultData, h, hblocks, isErrorText, List.map_nil]
  by_cases hempty : (items.filter isStructured).isEmpty = true
  · have hset : setTextBlocks content items = .str content := by
      unfold setTextBlocks
      simp only [hempty, if_true]
    rw [hset] at hreplace
    have hdata : resultData (original.set (lit "content") (.str content)) =
        { resultData original with blocks := [], errorText := isErrorText (some (.str content)) } :=
      resultData_set_content hm _
    rw [if_pos hempty]
    constructor
    · rintro ⟨written, hwritten, -, hsame⟩
      cases hreplace.symm.trans hwritten
      rw [hdata, hbefore] at hsame
      exact congrArg ResultData.errorText hsame
    · intro herror
      refine ⟨_, hreplace, providerMessageContent_set_str hm content, ?_⟩
      rw [hdata, herror]
      exact hbefore.symm
  · have hothers : items.filter isStructured ≠ [] := fun hnil => hempty (List.isEmpty_iff.mpr hnil)
    have hset : setTextBlocks content items = .arr ((if content.isEmpty then []
        else [.obj [(lit "type", .str (lit "text")), (lit "text", .str content)]]) ++ items.filter isStructured) := by
      unfold setTextBlocks
      simp only [if_neg hempty]
    rw [hset] at hreplace
    rw [if_neg hempty]
    constructor
    · rintro ⟨written, hwritten, hcontent, -⟩
      cases hreplace.symm.trans hwritten
      rw [providerMessageContent_set_arr hm, List.map_append] at hcontent
      cases content with
      | nil => exact ⟨rfl, hcontent⟩
      | cons c rest =>
        -- the text block is not alone
        have hmem : c :: rest ∈ (itemText B (.obj [(lit "type", .str (lit "text")), (lit "text", .str (c :: rest))])) ::
            (items.filter isStructured).map (itemText B) := List.mem_cons_self
        have hone := (joinLines_eq_iff_of_mem hmem).mp hcontent
        rw [List.length_cons, List.length_map] at hone
        exact absurd (List.eq_nil_of_length_eq_zero (Nat.succ.inj hone)) hothers
    · rintro ⟨rfl, hcontent⟩
      refine ⟨_, hreplace, ?_, ?_⟩
      · rw [providerMessageContent_set_arr hm]
        exact hcontent
      · rw [resultData_set_content hm]
        refine Eq.trans ?_ hbefore.symm
        simp only [listOf, Option.bind_some, Json.items?, Option.getD_some, List.isEmpty_nil, if_true, List.nil_append,
          filter_isStructured_results hresult, List.map_nil, isErrorText]

/-! ### Gemini parts -/

theorem setPart_of_not_mapping {part : Json}
    (h : ∀ functionResponse, part.get? (lit "functionResponse") ≠ some (.obj functionResponse)) :
    setPart B content part = some part := by
  unfold setPart
  split
  case h_1 functionResponse hget => exact absurd hget (h functionResponse)
  case h_2 => rfl

theorem read_setResponseText (content : Text) (response : List (Text × Json)) :
    ((setResponseText content response).lookup (lit "output")).or
      ((setResponseText content response).lookup (lit "message")) = some (.str content) := by
  have hne : lit "output" ≠ lit "message" := by decide
  unfold setResponseText
  dsimp only
  split
  case isTrue => rw [Json.lookup_upsert, if_pos rfl, Option.some_or]
  case isFalse hkey =>
    rw [Json.lookup_upsert, Json.lookup_upsert, if_neg hne, if_pos rfl]
    have hnone : response.lookup (lit "output") = none := by
      cases houtput : response.lookup (lit "output") with
      | none => rfl
      | some value =>
        rw [houtput] at hkey
        exact absurd rfl hkey
    rw [hnone, Option.none_or]

theorem lookup_status_setResponseText (content : Text) (response : List (Text × Json)) :
    (setResponseText content response).lookup (lit "status") = response.lookup (lit "status") := by
  have houtput : lit "status" ≠ lit "output" := by decide
  have hmessage : lit "status" ≠ lit "message" := by decide
  unfold setResponseText
  dsimp only
  split
  · rw [Json.lookup_upsert, if_neg houtput]
  · rw [Json.lookup_upsert, if_neg hmessage]

def writtenPart (functionResponse response : List (Text × Json)) (content : Text) : Json :=
  .obj [(lit "functionResponse",
    .obj (upsert Prod.fst (lit "response", .obj (setResponseText content response)) functionResponse))]

theorem truthy_upsert (members : List (Text × Json)) (entry : Text × Json) :
    (Json.obj (upsert Prod.fst entry members)).truthy = true := by
  have hmem : entry ∈ upsert Prod.fst entry members := mem_upsert_self
  rw [Json.truthy, Bool.not_eq_true', List.isEmpty_eq_false_iff]
  exact List.ne_nil_of_mem hmem

theorem partText_writtenPart (functionResponse response : List (Text × Json)) (content : Text) :
    partText B (writtenPart functionResponse response content) = content := by
  unfold partText writtenPart
  have hget : (Json.obj [(lit "functionResponse", Json.obj (upsert Prod.fst
      (lit "response", .obj (setResponseText content response)) functionResponse))]).get? (lit "functionResponse") =
        some (.obj (upsert Prod.fst (lit "response", .obj (setResponseText content response)) functionResponse)) := rfl
  rw [hget, Json.firstTruthy_cons_of_truthy (truthy_upsert _ _)]
  have hresponse : (Json.obj (upsert Prod.fst (lit "response", .obj (setResponseText content response))
      functionResponse)).get? (lit "response") = some (.obj (setResponseText content response)) :=
    (Json.lookup_upsert _ _ _ _).trans (if_pos rfl)
  simp only [Option.bind_some, hresponse]
  have hread := read_setResponseText content response
  simp only [Json.get?, hread]

theorem responseOf_writtenPart (functionResponse response : List (Text × Json)) (content : Text) :
    (responseOf (writtenPart functionResponse response content)).map (fun value =>
        (value.get? (lit "id"), value.get? (lit "name"), responseStatus value)) =
      some ((Json.obj functionResponse).get? (lit "id"), (Json.obj functionResponse).get? (lit "name"),
        response.lookup (lit "status")) := by
  have hid : lit "id" ≠ lit "response" := by decide
  have hname : lit "name" ≠ lit "response" := by decide
  have hget : responseOf (writtenPart functionResponse response content) =
      some (.obj (upsert Prod.fst (lit "response", .obj (setResponseText content response)) functionResponse)) := rfl
  rw [hget, Option.map_some]
  unfold responseStatus
  simp only [Json.get?]
  rw [Json.lookup_upsert, Json.lookup_upsert, Json.lookup_upsert, if_neg hid, if_neg hname, if_pos rfl,
    Option.bind_some]
  exact congrArg (fun status => some (functionResponse.lookup (lit "id"), functionResponse.lookup (lit "name"), status))
    (lookup_status_setResponseText content response)

variable {functionResponse : List (Text × Json)}

theorem mem_of_mapM_setPart {parts written : List Json} (h : parts.mapM (setPart B content) = some written)
    {part : Json} (hpart : part ∈ parts)
    (hget : part.get? (lit "functionResponse") = some (.obj functionResponse)) :
    content ∈ written.map (partText B) := by
  obtain ⟨writtenFor, hmem, hset⟩ := exists_of_mapM_eq_some h hpart
  unfold setPart at hset
  rw [hget] at hset
  obtain ⟨response, -, rfl⟩ := Option.map_eq_some_iff.mp hset
  exact List.mem_map.mpr ⟨_, hmem, partText_writtenPart functionResponse response content⟩

def HasParts (message : Json) (parts : List Json) : Prop :=
  (∀ text, message.get? (lit "content") ≠ some (.str text)) ∧
    (∀ items, message.get? (lit "content") ≠ some (.arr items)) ∧ message.get? (lit "parts") = some (.arr parts)

variable {parts : List Json}

theorem providerMessageContent_parts (h : HasParts message parts) :
    providerMessageContent B message = joinLines (parts.map (partText B)) := by
  obtain ⟨hstr, harr, hparts⟩ := h
  unfold providerMessageContent
  split
  case h_1 text hget => exact absurd hget (hstr text)
  case h_2 items hget => exact absurd hget (harr items)
  case h_3 => rw [hparts]

theorem replaceProviderContent_parts (h : HasParts message parts)
    (content : Text) : replaceProviderContent B message content =
      (parts.mapM (setPart B content)).map fun parts => message.set (lit "parts") (.arr parts) := by
  obtain ⟨hstr, harr, hparts⟩ := h
  unfold replaceProviderContent
  split
  case h_1 text hget => exact absurd hget (hstr text)
  case h_2 items hget => exact absurd hget (harr items)
  case h_3 => rw [hparts]

theorem HasParts.set (h : HasParts message parts) (hm : message.isMapping = true)
    (written : List Json) : HasParts (message.set (lit "parts") (.arr written)) written := by
  obtain ⟨hstr, harr, -⟩ := h
  have hcontent : (message.set (lit "parts") (.arr written)).get? (lit "content") = message.get? (lit "content") :=
    Json.get?_set_of_ne message (by decide) _
  exact ⟨fun text => hcontent ▸ hstr text, fun items => hcontent ▸ harr items, Json.get?_set_self hm _ _⟩

theorem resultData_writtenPart {original part : Json}
    (hm : original.isMapping = true) (h : HasParts original [part])
    (hget : part.get? (lit "functionResponse") = some (.obj functionResponse)) (response : List (Text × Json))
    (content : Text) :
    resultData (original.set (lit "parts") (.arr [writtenPart functionResponse response content])) =
        resultData original ↔ response.lookup (lit "status") = responseStatus (.obj functionResponse) := by
  have hbefore : resultData original = { resultData original with
      responses := [((Json.obj functionResponse).get? (lit "id"), (Json.obj functionResponse).get? (lit "name"),
        responseStatus (.obj functionResponse))] } := by
    have hresponse : responseOf part = some (.obj functionResponse) := by
      unfold responseOf
      rw [hget, Option.some_or]
    simp only [resultData, h.2.2, listOf, Option.bind_some, Json.items?, Option.getD_some,
      List.filterMap_cons_some hresponse, List.filterMap_nil, List.map_cons, List.map_nil]
  have hafter := responseOf_writtenPart functionResponse response content
  obtain ⟨value, hvalue, hdata⟩ := Option.map_eq_some_iff.mp hafter
  rw [resultData_set_parts hm, List.filterMap_cons_some hvalue, List.filterMap_nil, List.map_cons, List.map_nil, hdata]
  constructor
  · intro hsame
    rw [hbefore] at hsame
    have hresponses := congrArg ResultData.responses hsame
    simp only [List.cons.injEq, Prod.mk.injEq, and_true, true_and] at hresponses
    exact hresponses
  · intro hstatus
    rw [hstatus]
    exact hbefore.symm

theorem replaces_parts (hm : original.isMapping = true)
    (h : HasParts original parts) (hne : content ≠ providerMessageContent B original) :
    Replaces B original content ↔ ∃ part, parts = [part] ∧ WritablePart B part := by
  have hreplace := replaceProviderContent_parts (B := B) h content
  constructor
  · rintro ⟨written, hwritten, hcontent, hsame⟩
    obtain ⟨blocks, hblocks, rfl⟩ := Option.map_eq_some_iff.mp (hreplace.symm.trans hwritten)
    rw [providerMessageContent_parts (h.set hm blocks)] at hcontent
    by_cases htouched : ∃ part ∈ parts, ∃ functionResponse,
        part.get? (lit "functionResponse") = some (.obj functionResponse)
    · obtain ⟨part, hpart, functionResponse, hget⟩ := htouched
      have hone := (joinLines_eq_iff_of_mem (mem_of_mapM_setPart hblocks hpart hget)).mp hcontent
      rw [List.length_map, length_of_mapM_eq_some hblocks] at hone
      obtain ⟨only, rfl⟩ := List.length_eq_one_iff.mp hone
      obtain rfl := List.mem_singleton.mp hpart
      refine ⟨part, rfl, functionResponse, ?_⟩
      have hset : setPart B content part = (B.dict ((functionResponse.lookup (lit "response")).getD (.obj []))).map
          fun response => writtenPart functionResponse response content := by
        unfold setPart
        rw [hget]
        rfl
      rw [List.mapM_cons, hset] at hblocks
      obtain ⟨head, hhead, hblocks⟩ := Option.bind_eq_some_iff.mp hblocks
      obtain ⟨response, hresponse, rfl⟩ := Option.map_eq_some_iff.mp hhead
      cases hblocks
      exact ⟨response, hget, hresponse, (resultData_writtenPart hm h hget response content).mp hsame⟩
    · -- no part takes the text, so what is read is what was read before
      have huntouched : parts.mapM (setPart B content) = some parts :=
        mapM_eq_some_self fun part hpart => setPart_of_not_mapping fun functionResponse hget =>
          htouched ⟨part, hpart, functionResponse, hget⟩
      cases huntouched.symm.trans hblocks
      exact absurd (hcontent.symm.trans (providerMessageContent_parts h).symm) hne
  · rintro ⟨part, rfl, functionResponse, response, hget, hresponse, hstatus⟩
    have hset : setPart B content part = some (writtenPart functionResponse response content) := by
      unfold setPart
      rw [hget]
      dsimp only
      rw [hresponse]
      rfl
    have hwritten : replaceProviderContent B original content =
        some (original.set (lit "parts") (.arr [writtenPart functionResponse response content])) := by
      rw [hreplace, List.mapM_cons, hset]
      rfl
    refine ⟨_, hwritten, ?_, (resultData_writtenPart hm h hget response content).mpr hstatus⟩
    rw [providerMessageContent_parts (h.set hm _), List.map_cons, List.map_nil, joinLines_singleton,
      partText_writtenPart]

theorem replaces_other (hm : original.isMapping = true)
    (hstr : ∀ text, original.get? (lit "content") ≠ some (.str text))
    (harr : ∀ items, original.get? (lit "content") ≠ some (.arr items))
    (hparts : ∀ parts, original.get? (lit "parts") ≠ some (.arr parts)) :
    Replaces B original content ↔ isErrorText (some (.str content)) = false := by
  have hreplace : replaceProviderContent B original content = some (original.set (lit "content") (.str content)) := by
    unfold replaceProviderContent
    split
    case h_1 text hget => exact absurd hget (hstr text)
    case h_2 items hget => exact absurd hget (harr items)
    case h_3 =>
      split
      case h_1 parts hget => exact absurd hget (hparts parts)
      case h_2 => rfl
  have hdata : resultData (original.set (lit "content") (.str content)) =
      { resultData original with blocks := [], errorText := isErrorText (some (.str content)) } :=
    resultData_set_content hm _
  have hbefore : resultData original = { resultData original with blocks := [], errorText := false } := by
    have hlist : listOf (original.get? (lit "content")) = [] := by
      cases hget : original.get? (lit "content") with
      | none => rfl
      | some value =>
        cases value with
        | arr items => exact absurd hget (harr items)
        | _ => rfl
    have herror : isErrorText (original.get? (lit "content")) = false := by
      cases hget : original.get? (lit "content") with
      | none => rfl
      | some value =>
        cases value with
        | str text => exact absurd hget (hstr text)
        | _ => rfl
    simp only [resultData, hlist, herror, List.filter_nil, List.map_nil]
  constructor
  · rintro ⟨written, hwritten, -, hsame⟩
    cases hreplace.symm.trans hwritten
    rw [hdata, hbefore] at hsame
    exact congrArg ResultData.errorText hsame
  · intro herror
    refine ⟨_, hreplace, providerMessageContent_set_str hm content, ?_⟩
    rw [hdata, herror]
    exact hbefore.symm

theorem replaces_iff (hm : original.isMapping = true)
    (hne : content ≠ providerMessageContent B original) : Replaces B original content ↔ Writable B original content := by
  unfold Writable
  split
  case h_1 text hget => exact replaces_str hm hget
  case h_2 items hget =>
    cases hresult : items.any (hasType (lit "tool_result")) with
    | true =>
      rw [if_pos rfl]
      exact replaces_results hm hget hresult
    | false =>
      rw [if_neg Bool.false_ne_true]
      exact replaces_blocks hm hget hresult
  case h_3 hstr harr =>
    split
    case h_1 parts hparts => exact replaces_parts hm ⟨hstr, harr, hparts⟩ hne
    case h_2 hparts => exact replaces_other hm hstr harr hparts

theorem writesBack_same {message : ContextMessage} (horiginal : message.original = some original)
    (hsame : message.content = providerMessageContent B original) : WritesBack B message original := by
  refine ⟨original, ?_, hsame.symm, rfl⟩
  unfold contextMessageToProvider
  rw [horiginal]
  exact if_pos hsame

theorem writesBack_rewritten {message : ContextMessage} (horiginal : message.original = some original)
    (hne : message.content ≠ providerMessageContent B original) :
    WritesBack B message original ↔ Writable B original message.content := by
  rw [← replaces_iff (Option.filter_eq_some_iff.mp horiginal).2 hne]
  have hback : contextMessageToProvider B message = replaceProviderContent B original message.content := by
    unfold contextMessageToProvider
    rw [horiginal]
    exact if_neg hne
  unfold WritesBack Replaces
  rw [hback]

/-- A rewritten text comes through with everything else exactly where it is writable, or is the text that was read. -/
theorem writesBack_iff (B : Builtins) (message : ContextMessage) (original : Json)
    (horiginal : message.original = some original) :
    WritesBack B message original ↔
      message.content = providerMessageContent B original ∨ Writable B original message.content := by
  by_cases hsame : message.content = providerMessageContent B original
  · exact iff_of_true (writesBack_same horiginal hsame) (Or.inl hsame)
  · rw [or_iff_right hsame, writesBack_rewritten horiginal hsame]

/-- A message made of `original` whose text was rewritten. -/
def rewritten (original : Json) (content : Text) : ContextMessage where
  role := lit "user"
  content := content
  kind := lit "tool_result"
  metadata := .obj [(lit "provider_message", original)]

def chatResult : Json :=
  .obj [(lit "role", .str (lit "tool")), (lit "tool_call_id", .str (lit "c1")), (lit "content", .str (lit "long"))]

theorem writesBack_iff_chatResult :
    WritesBack plainBuiltins (rewritten chatResult (lit "cut")) chatResult ∧
      isErrorText (some (.str (lit "cut"))) = isErrorText (some (.str (lit "long"))) :=
  ⟨(writesBack_iff plainBuiltins (rewritten chatResult (lit "cut")) chatResult rfl).mpr
    (Or.inr (show isErrorText _ = isErrorText _ by decide)), by decide⟩

/-- A `tool_result` block. -/
def resultBlock (callId content : Text) : Json :=
  .obj [(lit "type", .str (lit "tool_result")), (lit "tool_use_id", .str callId), (lit "content", .str content)]

def parallelResults : Json :=
  .obj [(lit "role", .str (lit "user")),
    (lit "content", .arr [resultBlock (lit "t1") (lit "one"), resultBlock (lit "t2") (lit "two")])]

/-- The text goes into the first block, and the second keeps its own. -/
theorem parallelResults_notWrittenBack :
    ¬WritesBack plainBuiltins (rewritten parallelResults (lit "cut")) parallelResults := by
  have hread : providerMessageContent plainBuiltins parallelResults = lit "one\ntwo" := by decide +kernel
  have hne : (rewritten parallelResults (lit "cut")).content ≠ providerMessageContent plainBuiltins parallelResults := by
    rw [hread]
    decide
  rw [writesBack_rewritten rfl hne]
  intro h
  exact absurd (show (2 : ℕ) = 1 from h) (by decide)

end VidbyteSdk.Middleware.Compaction
