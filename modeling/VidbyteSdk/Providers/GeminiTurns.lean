import Mathlib.Algebra.GroupWithZero.Nat
import VidbyteSdk.Providers.ToolExchanges

/-!
# Turns for Gemini

Gemini takes one model turn a step and one answer turn for all calls of a step. Merging absorbs the model turns
of a history into the next call turn and gathers the results of an exchange. What is left alternates as Gemini
demands, and says every part of the history in its order.
-/

namespace VidbyteSdk.Providers.Gemini

open VidbyteSdk.Lib

def Part.isFunctionCall : Part → Bool
  | .functionCall .. => true
  | _ => false

def functionCalls (turn : Message) : ℕ := (partsOf turn).countP Part.isFunctionCall

def functionResponses (turn : Message) : ℕ := (partsOf turn).countP Part.isFunctionResponse

/-- An exchange as `ToolsFormatter` builds it: a model turn with calls, and user turns with as many responses. -/
def IsExchange (call : Message) (results : List Message) : Prop :=
  call.role = some .model ∧ 0 < functionCalls call ∧
    (∀ result ∈ results, isFunctionResponseTurn result = true) ∧
    (results.map functionResponses).sum = functionCalls call

def IsPlain (message : Message) : Prop :=
  ∀ part ∈ partsOf message, Part.isFunctionCall part = false ∧ Part.isFunctionResponse part = false

/-- The segments of a history for Gemini. A plain message has its text or its parts. -/
def GeminiSegment : Segment → Prop
  | .turn message =>
    (message.role = some .user ∨ message.role = some .system ∨ message.role = some .assistant ∨
      message.role = some .model) ∧ (message.parts = none ∨ message.content = none) ∧ IsPlain message
  | .exchange call results =>
    IsExchange call results ∧ call.content = none ∧ ∀ result ∈ results, result.content = none

def Ready : Segment → Prop
  | .turn message => (message.role = some .user ∨ message.role = some .model) ∧ IsPlain message
  | .exchange call results => IsExchange call results

/-! ### What turns say -/

def flat (turn : Message) : List (Option Role × Part) := (partsOf turn).map fun part => (turn.role, part)

def said (str : Content → String) (message : Message) : List (Option Role × Part) :=
  let parts := match message.parts, message.content with
    | some parts, _ => parts
    | none, some (.text text) => [.text text]
    | none, some content => [.text (str content)]
    | none, none => []
  parts.map fun part => (geminiRole message.role, part)

theorem flat_geminiTurn (str : Content → String) (message : Message) :
    flat (geminiTurn str message) = said str message := by
  obtain ⟨_, role, content, parts, _, _, _⟩ := message
  cases parts with
  | some parts => rfl
  | none =>
    cases content with
    | none => rfl
    | some content => cases content <;> rfl

theorem flat_joinParts {last turn : Message} (hrole : turn.role = last.role) :
    flat (joinParts last turn) = flat last ++ flat turn := by
  unfold flat
  rw [hrole]
  exact List.map_append

theorem functionCalls_joinParts (last turn : Message) :
    functionCalls (joinParts last turn) = functionCalls last + functionCalls turn :=
  List.countP_append

theorem functionResponses_joinParts (last turn : Message) :
    functionResponses (joinParts last turn) = functionResponses last + functionResponses turn :=
  List.countP_append

variable {message : Message}

theorem IsPlain.functionCalls_eq_zero (h : IsPlain message) : functionCalls message = 0 :=
  List.countP_eq_zero.mpr fun part hpart => by simp [(h part hpart).1]

theorem IsPlain.not_isFunctionResponseTurn (h : IsPlain message) :
    isFunctionResponseTurn message = false := by
  unfold isFunctionResponseTurn
  cases hparts : partsOf message with
  | nil => simp
  | cons part parts =>
    have hpart : part ∈ partsOf message := by rw [hparts]; exact List.mem_cons_self
    simp [(h part hpart).2]

variable {turn : Message}

theorem isFunctionResponseTurn_iff : isFunctionResponseTurn turn = true ↔
    turn.role = some .user ∧ partsOf turn ≠ [] ∧ ∀ part ∈ partsOf turn, Part.isFunctionResponse part = true := by
  simp [isFunctionResponseTurn, and_assoc]

theorem isFunctionResponseTurn_joinParts {last turn : Message} (hlast : isFunctionResponseTurn last = true)
    (hturn : isFunctionResponseTurn turn = true) : isFunctionResponseTurn (joinParts last turn) = true := by
  obtain ⟨hrole, hne, hparts⟩ := isFunctionResponseTurn_iff.mp hlast
  obtain ⟨-, -, hmore⟩ := isFunctionResponseTurn_iff.mp hturn
  refine isFunctionResponseTurn_iff.mpr ⟨hrole, ?_, fun part hpart => ?_⟩
  · show partsOf last ++ partsOf turn ≠ []
    exact List.append_ne_nil_of_left_ne_nil hne _
  · exact (List.mem_append.mp hpart).elim (hparts part) (hmore part)

theorem not_isFunctionResponseTurn_of_model (h : turn.role = some .model) :
    isFunctionResponseTurn turn = false := by
  simp [isFunctionResponseTurn, h]

theorem functionCalls_eq_zero_of_response (h : isFunctionResponseTurn turn = true) :
    functionCalls turn = 0 := by
  obtain ⟨-, -, hparts⟩ := isFunctionResponseTurn_iff.mp h
  refine List.countP_eq_zero.mpr fun part hpart => ?_
  have hresponse := hparts part hpart
  cases part <;> simp_all [Part.isFunctionResponse, Part.isFunctionCall]

/-! ### Histories of turns -/

theorem partsOf_geminiTurn (str : Content → String) (message : Message) :
    partsOf (geminiTurn str message) = partsOf message ∨
      ∃ text, partsOf (geminiTurn str message) = [.text text] := by
  obtain ⟨_, role, content, parts, _, _, _⟩ := message
  cases parts with
  | some parts => exact .inl rfl
  | none =>
    cases content with
    | none => exact .inl rfl
    | some content =>
      cases content with
      | text text => exact .inr ⟨text, rfl⟩
      | blocks blocks => exact .inr ⟨str (.blocks blocks), rfl⟩
      | null => exact .inr ⟨str .null, rfl⟩

theorem IsPlain.geminiTurn (h : IsPlain message) (str : Content → String) :
    IsPlain (geminiTurn str message) := by
  intro part hpart
  obtain hparts | ⟨text, hparts⟩ := partsOf_geminiTurn str message
  · exact h part (hparts ▸ hpart)
  · rw [hparts, List.mem_singleton] at hpart
    rw [hpart]
    exact ⟨rfl, rfl⟩

@[simp] theorem role_geminiTurn (str : Content → String) (message : Message) :
    (geminiTurn str message).role = geminiRole message.role := by
  obtain ⟨_, role, content, parts, _, _, _⟩ := message
  cases parts with
  | some parts => rfl
  | none =>
    cases content with
    | none => rfl
    | some content => cases content <;> rfl

theorem geminiTurn_of_turn (str : Content → String)
    (hrole : turn.role = some .user ∨ turn.role = some .model) (hcontent : turn.content = none) :
    geminiTurn str turn = turn := by
  obtain ⟨_, role, content, parts, _, _, _⟩ := turn
  obtain hrole | hrole := hrole <;> cases hrole <;> cases hcontent <;> cases parts <;> rfl

theorem GeminiSegment.ready (str : Content → String) {segment : Segment} (h : GeminiSegment segment) :
    Ready (segment.map (geminiTurn str)) := by
  cases segment with
  | turn message =>
    obtain ⟨hrole, -, hplain⟩ := h
    refine ⟨?_, hplain.geminiTurn str⟩
    rw [role_geminiTurn]
    obtain hrole | hrole | hrole | hrole := hrole <;> rw [hrole] <;> simp [geminiRole]
  | exchange call results =>
    obtain ⟨hexchange, hcall, hresults⟩ := h
    have hmap : results.map (geminiTurn str) = results := by
      conv_rhs => rw [← List.map_id results]
      refine List.map_congr_left fun result hresult => ?_
      obtain ⟨hrole, -, -⟩ := isFunctionResponseTurn_iff.mp (hexchange.2.2.1 result hresult)
      exact geminiTurn_of_turn str (.inl hrole) (hresults result hresult)
    show IsExchange (geminiTurn str call) (results.map (geminiTurn str))
    rw [hmap, geminiTurn_of_turn str (.inr hexchange.1) hcall]
    exact hexchange

/-! ### What merging leaves -/

def absorb (pending : Option Message) (turn : Message) : Message :=
  pending.elim turn fun last => joinParts last turn

def settle : Option Message → List Segment → List Segment
  | pending, [] => pending.toList.map .turn
  | pending, .turn message :: segments =>
    if message.role = some .model then settle (some (absorb pending message)) segments
    else pending.toList.map .turn ++ .turn message :: settle none segments
  | pending, .exchange call results :: segments =>
    .exchange (absorb pending call) results :: settle none segments

def answered : Segment → List Message
  | .turn message => [message]
  | .exchange call [] => [call]
  | .exchange call (result :: results) => [call, results.foldl joinParts result]

theorem IsExchange.results_ne_nil {call : Message} {results : List Message} (h : IsExchange call results) :
    results ≠ [] := by
  rintro rfl
  have hcalls := h.2.1
  have hsum : 0 = functionCalls call := h.2.2.2
  omega

variable {segments : List Segment}

theorem mergeFrom_history (h : ∀ segment ∈ segments, Ready segment) :
    (∀ turn : Message, turn.role ≠ some .model →
      mergeFrom joinsModel joinParts turn (history segments) = turn :: history (settle none segments)) ∧
    ∀ last : Message, last.role = some .model →
      mergeFrom joinsModel joinParts last (history segments) = history (settle (some last) segments) := by
  induction segments with
  | nil => exact ⟨fun _ _ => rfl, fun _ _ => rfl⟩
  | cons segment segments ih =>
    obtain ⟨ihTurn, ihLast⟩ := ih fun later hlater => h later (List.mem_cons_of_mem _ hlater)
    have hready := h segment List.mem_cons_self
    cases segment with
    | turn message =>
      obtain ⟨hrole, -⟩ := hready
      show (∀ turn : Message, _ → mergeFrom _ _ turn (message :: history segments) = _) ∧
        ∀ last : Message, _ → mergeFrom _ _ last (message :: history segments) = _
      refine ⟨fun turn hturn => ?_, fun last hlast => ?_⟩
      · have hjoins : joinsModel turn message = false := by simp [joinsModel, hturn]
        rw [mergeFrom, hjoins, if_neg Bool.false_ne_true, settle]
        split
        next hmodel => rw [ihLast message hmodel]; rfl
        next hmodel => rw [ihTurn message hmodel]; rfl
      · rw [mergeFrom, settle]
        by_cases hmodel : message.role = some .model
        · have hjoins : joinsModel last message = true := by simp [joinsModel, hlast, hmodel]
          rw [if_pos hjoins, if_pos hmodel]
          exact ihLast _ hlast
        · have hjoins : joinsModel last message = false := by simp [joinsModel, hmodel]
          rw [hjoins, if_neg Bool.false_ne_true, if_neg hmodel, ihTurn message hmodel]
          rfl
    | exchange call results =>
      have hcall : call.role = some .model := hready.1
      have hroles : ∀ result ∈ results, result.role ≠ some .model := by
        intro result hresult
        rw [(isFunctionResponseTurn_iff.mp (hready.2.2.1 result hresult)).1]
        decide
      obtain ⟨result, later, rfl⟩ := List.exists_cons_of_ne_nil hready.results_ne_nil
      -- After a call the results stay apart, and the segments after them follow a user turn.
      have hresults : ∀ turn : Message, mergeFrom joinsModel joinParts turn
          (result :: later ++ history segments) =
            turn :: (result :: later ++ history (settle none segments)) := by
        intro turn
        have hjoins : joinsModel turn result = false := by
          simp [joinsModel, hroles result List.mem_cons_self]
        rw [List.cons_append, mergeFrom, hjoins, if_neg Bool.false_ne_true]
        rw [mergeFrom_append_apart]
        · rfl
        · intro before item hitem
          simp [joinsModel, hroles item (List.mem_cons_of_mem _ hitem)]
        · exact fun item hitem => ihTurn item (hroles item hitem)
      show (∀ turn : Message, _ →
          mergeFrom _ _ turn (call :: (result :: later ++ history segments)) = _) ∧
        ∀ last : Message, _ → mergeFrom _ _ last (call :: (result :: later ++ history segments)) = _
      refine ⟨fun turn hturn => ?_, fun last hlast => ?_⟩
      · have hjoins : joinsModel turn call = false := by simp [joinsModel, hturn]
        rw [mergeFrom, hjoins, if_neg Bool.false_ne_true, hresults call]
        rfl
      · have hjoins : joinsModel last call = true := by simp [joinsModel, hlast, hcall]
        rw [mergeFrom, if_pos hjoins, hresults (joinParts last call)]
        rfl

/-- A segment that does not begin with results, and whose results can be one turn. -/
def Answerable : Segment → Prop
  | .turn message => isFunctionResponseTurn message = false
  | .exchange call results => isFunctionResponseTurn call = false ∧ results ≠ [] ∧
    ∀ result ∈ results, isFunctionResponseTurn result = true

theorem mergeFrom_answerable (h : ∀ segment ∈ segments, Answerable segment)
    (last : Message) :
    mergeFrom (fun last turn => isFunctionResponseTurn turn && isFunctionResponseTurn last) joinParts last
      (history segments) = last :: segments.flatMap answered := by
  induction segments generalizing last with
  | nil => rfl
  | cons segment segments ih =>
    have ih := ih fun later hlater => h later (List.mem_cons_of_mem _ hlater)
    have hthis := h segment List.mem_cons_self
    cases segment with
    | turn message =>
      have hmessage : isFunctionResponseTurn message = false := hthis
      show mergeFrom _ _ last (message :: history segments) = _
      rw [mergeFrom, if_neg (by simp [hmessage]), ih message]
      rfl
    | exchange call results =>
      obtain ⟨hcall, hne, hresults⟩ := hthis
      obtain ⟨result, later, rfl⟩ := List.exists_cons_of_ne_nil hne
      show mergeFrom _ _ last (call :: result :: (later ++ history segments)) = _
      rw [mergeFrom, if_neg (by simp [hcall]), mergeFrom, if_neg (by simp [hcall])]
      have htogether := @mergeFrom_append_together Message
        (fun last turn => isFunctionResponseTurn turn && isFunctionResponseTurn last) joinParts
        (fun turn => isFunctionResponseTurn turn = true)
      rw [htogether, ih]
      · rfl
      · intro a b ha hb
        exact ⟨by simp [ha, hb], isFunctionResponseTurn_joinParts ha hb⟩
      · exact fun item hitem => hresults item (List.mem_cons_of_mem _ hitem)
      · exact hresults result List.mem_cons_self

/-- The turns pending in front of a call are model turns without calls or results. -/
def Pending (pending : Option Message) : Prop := ∀ last ∈ pending, last.role = some .model ∧ IsPlain last

theorem Pending.none : Pending none := fun _ h => by cases h

theorem Pending.role_absorb {pending : Option Message} (h : Pending pending)
    (hturn : turn.role = some .model) : (absorb pending turn).role = some .model := by
  cases pending with
  | none => exact hturn
  | some last => exact (h last rfl).1

theorem Pending.functionCalls_absorb {pending : Option Message} (h : Pending pending) (turn : Message) :
    functionCalls (absorb pending turn) = functionCalls turn := by
  cases pending with
  | none => rfl
  | some last =>
    show functionCalls (joinParts last turn) = _
    rw [functionCalls_joinParts, (h last rfl).2.functionCalls_eq_zero, Nat.zero_add]

theorem Pending.flat_absorb {pending : Option Message} (h : Pending pending)
    (hturn : turn.role = some .model) :
    flat (absorb pending turn) = pending.toList.flatMap flat ++ flat turn := by
  cases pending with
  | none => rfl
  | some last =>
    show flat (joinParts last turn) = flat last ++ [] ++ flat turn
    rw [flat_joinParts (hturn.trans (h last rfl).1.symm), List.append_nil]

theorem Pending.absorb {pending : Option Message} (h : Pending pending)
    (hturn : turn.role = some .model) (hplain : IsPlain turn) : Pending (some (absorb pending turn)) := by
  intro last hlast
  obtain rfl := Option.mem_some_iff.mp hlast
  refine ⟨h.role_absorb hturn, ?_⟩
  cases pending with
  | none => exact hplain
  | some last =>
    intro part hpart
    exact (List.mem_append.mp hpart).elim ((h last rfl).2 part) (hplain part)

theorem Pending.answerable {pending : Option Message} (h : Pending pending) :
    ∀ segment ∈ pending.toList.map Segment.turn, Answerable segment := by
  intro segment hsegment
  obtain ⟨last, hlast, rfl⟩ := List.mem_map.mp hsegment
  exact (h last (Option.mem_toList.mp hlast)).2.not_isFunctionResponseTurn

theorem answerable_settle (h : ∀ segment ∈ segments, Ready segment)
    {pending : Option Message} (hpending : Pending pending) :
    ∀ segment ∈ settle pending segments, Answerable segment := by
  induction segments generalizing pending with
  | nil => exact hpending.answerable
  | cons segment segments ih =>
    have ih := fun {pending} => @ih (fun later hlater => h later (List.mem_cons_of_mem _ hlater)) pending
    have hready := h segment List.mem_cons_self
    cases segment with
    | turn message =>
      rw [settle]
      split
      next hmodel => exact ih (hpending.absorb hmodel hready.2)
      next =>
        intro segment hsegment
        obtain hsegment | hsegment := List.mem_append.mp hsegment
        · exact hpending.answerable segment hsegment
        · obtain rfl | hsegment := List.mem_cons.mp hsegment
          · exact hready.2.not_isFunctionResponseTurn
          · exact ih Pending.none segment hsegment
    | exchange call results =>
      intro segment hsegment
      obtain rfl | hsegment := List.mem_cons.mp hsegment
      · exact ⟨not_isFunctionResponseTurn_of_model (hpending.role_absorb hready.1), hready.results_ne_nil,
          hready.2.2.1⟩
      · exact ih Pending.none segment hsegment

/-! ### Nothing is lost -/

theorem foldl_joinParts {result : Message} {later : List Message}
    (h : ∀ turn ∈ result :: later, isFunctionResponseTurn turn = true) :
    isFunctionResponseTurn (later.foldl joinParts result) = true ∧
      functionResponses (later.foldl joinParts result) = ((result :: later).map functionResponses).sum ∧
      flat (later.foldl joinParts result) = (result :: later).flatMap flat := by
  induction later generalizing result with
  | nil =>
    refine ⟨h result List.mem_cons_self, ?_, ?_⟩
    · simp
    · simp
  | cons turn later ih =>
    have hresult := h result List.mem_cons_self
    have hturn := h turn (List.mem_cons_of_mem _ List.mem_cons_self)
    have hjoined : ∀ next ∈ joinParts result turn :: later, isFunctionResponseTurn next = true := by
      intro next hnext
      obtain rfl | hnext := List.mem_cons.mp hnext
      · exact isFunctionResponseTurn_joinParts hresult hturn
      · exact h next (List.mem_cons_of_mem _ (List.mem_cons_of_mem _ hnext))
    obtain ⟨hanswer, hcount, hflat⟩ := ih hjoined
    have hrole : turn.role = result.role :=
      (isFunctionResponseTurn_iff.mp hturn).1.trans (isFunctionResponseTurn_iff.mp hresult).1.symm
    refine ⟨hanswer, ?_, ?_⟩
    · rw [List.foldl_cons, hcount]
      simp only [List.map_cons, List.sum_cons, functionResponses_joinParts, Nat.add_assoc]
    · rw [List.foldl_cons, hflat]
      simp only [List.flatMap_cons, flat_joinParts hrole, List.append_assoc]

theorem flat_settle (h : ∀ segment ∈ segments, Ready segment)
    {pending : Option Message} (hpending : Pending pending) :
    ((settle pending segments).flatMap answered).flatMap flat =
      pending.toList.flatMap flat ++ (history segments).flatMap flat := by
  induction segments generalizing pending with
  | nil => cases pending <;> simp [settle, answered, history]
  | cons segment segments ih =>
    have ih := fun {pending} => @ih (fun later hlater => h later (List.mem_cons_of_mem _ hlater)) pending
    have hready := h segment List.mem_cons_self
    have hhistory : history (segment :: segments) = segment.messages ++ history segments := rfl
    rw [hhistory, List.flatMap_append]
    cases segment with
    | turn message =>
      rw [settle]
      split
      next hmodel =>
        rw [ih (hpending.absorb hmodel hready.2)]
        simp [hpending.flat_absorb hmodel, Segment.messages]
      next =>
        rw [List.flatMap_append, List.flatMap_append, List.flatMap_cons, List.flatMap_append, ih Pending.none]
        cases pending <;> simp [answered, Segment.messages]
    | exchange call results =>
      obtain ⟨result, later, rfl⟩ := List.exists_cons_of_ne_nil hready.results_ne_nil
      rw [settle, List.flatMap_cons, List.flatMap_append, ih Pending.none]
      simp [answered, Segment.messages, hpending.flat_absorb hready.1, (foldl_joinParts hready.2.2.1).2.2]

theorem settle_append_turn (before after : List Segment) (hturn : turn.role ≠ some .model)
    (pending : Option Message) :
    settle pending (before ++ .turn turn :: after) =
      settle pending before ++ .turn turn :: settle none after := by
  induction before generalizing pending with
  | nil => simp only [List.nil_append, settle, if_neg hturn]
  | cons segment before ih =>
    cases segment with
    | turn message =>
      rw [List.cons_append, settle, settle]
      split
      next => exact ih _
      next => rw [ih none, List.append_assoc]; rfl
    | exchange call results =>
      rw [List.cons_append, settle, settle, ih none]
      rfl

end VidbyteSdk.Providers.Gemini
