import VidbyteSdk.Middleware.Compaction.Budgets
import VidbyteSdk.Middleware.Compaction.Duplicates
import VidbyteSdk.Middleware.Compaction.Pairing

/-!
# Whole exchanges

A well-formed history is a row of segments: a message alone, or a call turn with all of its results. The pairing repair
keeps it as it is, and the strategies that select by groups keep segments: an exchange stays whole or goes. The
strategies that put a summary or a trace in the place of segments move the system messages to the front; the others
keep the order.
-/

namespace VidbyteSdk.Middleware.Compaction

open VidbyteSdk.Lib
open Json (lit)

variable (B : Builtins)

/-- A message stands right after another one in the history, as far as the two have a place there. -/
def Follows (before message : ContextMessage) : Prop :=
  ∀ place ∈ providerIndex before, ∀ next ∈ providerIndex message, next = place + 1

def resultIds (result : ContextMessage) : Finset Text := (pairingTag B result).ids.getD ∅

/-- The results answer each id that is asked for, once, and nothing else. -/
structure AnswersIds (wanted : Finset Text) (results : List ContextMessage) : Prop where
  named : ∀ result ∈ results, (pairingTag B result).ids.isSome = true
  once : results.Pairwise fun a b => Disjoint (resultIds B a) (resultIds B b)
  all : ∀ id, id ∈ wanted ↔ ∃ result ∈ results, id ∈ resultIds B result

/-- The results stand in a row behind their turn, and have a response for each of its function calls. -/
structure AnswersParts (call : ContextMessage) (results : List ContextMessage) : Prop where
  consecutive : (call :: results).IsChain Follows
  responses : (pairingTag B call).parts = 0 ∨
    (results.map fun result => (pairingTag B result).parts).sum = (pairingTag B call).parts

structure IsExchange (call : ContextMessage) (results : List ContextMessage) : Prop where
  call_kind : call.isToolCall = true
  call_role : (pairingTag B call).role = some .call
  results_ne : results ≠ []
  results_kind : ∀ result ∈ results, result.isToolResult = true
  -- a result makes no call of its own
  results_only : ∀ result ∈ results, toolCallSignature result = none
  not_system : ∀ message ∈ call :: results, message.isSystem = false
  answered : match (pairingTag B call).ids with
    | some wanted => AnswersIds B wanted results
    | none => AnswersParts B call results

/-- A message that is neither a call turn nor a result, or an exchange. -/
inductive IsSegment : List ContextMessage → Prop
  | plain {message : ContextMessage} (h : (pairingTag B message).role = none) : IsSegment [message]
  | exchange {call : ContextMessage} {results : List ContextMessage} (h : IsExchange B call results) :
    IsSegment (call :: results)

def WellFormed (segments : List (List ContextMessage)) : Prop := ∀ segment ∈ segments, IsSegment B segment

/-- The results stand behind a call turn, each where it may, and name no id that the turn does not, and none twice. -/
structure Collects (call : ContextMessage) (results : List ContextMessage) : Prop where
  role : ∀ result ∈ results, (pairingTag B result).role = some .result
  placed : (call :: results).IsChain fun before result =>
    ((pairingTag B call).ids.isSome = true ∧ (pairingTag B result).ids.isSome = true) ∨ Follows before result
  asked : ∀ wanted ∈ (pairingTag B call).ids, (∀ result ∈ results, resultIds B result ⊆ wanted) ∧
    results.Pairwise fun a b => Disjoint (resultIds B a) (resultIds B b)

def IsComplete (call : ContextMessage) (results : List ContextMessage) : Prop :=
  match (pairingTag B call).ids with
  | some wanted => ∀ id ∈ wanted, ∃ result ∈ results, id ∈ resultIds B result
  | none => (pairingTag B call).parts = 0 ∨
    (results.map fun result => (pairingTag B result).parts).sum = (pairingTag B call).parts

/-- A call turn with results that answer all of its calls. -/
structure IsAnswered (call : ContextMessage) (results : List ContextMessage) : Prop extends
    Collects B call results where
  call_role : (pairingTag B call).role = some .call
  results_ne : results ≠ []
  complete : IsComplete B call results

inductive IsPaired : List ContextMessage → Prop
  | plain {message : ContextMessage} (h : (pairingTag B message).role = none) : IsPaired [message]
  | answered {call : ContextMessage} {results : List ContextMessage} (h : IsAnswered B call results) :
    IsPaired (call :: results)

/-- The messages that are no call turns and no results. -/
def plainMessages (messages : List ContextMessage) : List ContextMessage :=
  messages.filter fun message => (pairingTag B message).role = none

variable {B}

variable {message : ContextMessage}

theorem role_of_isToolResult (h : message.isToolResult = true) :
    (pairingTag B message).role = some .result := by
  rw [pairingTag]
  simp only [h, if_true]

theorem isToolResult_of_role (h : (pairingTag B message).role ≠ some .result) :
    message.isToolResult = false :=
  Bool.eq_false_iff.mpr fun hresult => h (role_of_isToolResult hresult)

/-! ### The repair of a history -/

variable {call : ContextMessage} {results before : List ContextMessage}

namespace Repair

variable (B) in
/-- The state with a call turn open behind `before`. -/
def collecting (before : List ContextMessage) (call : ContextMessage) (results : List ContextMessage) : Repair where
  kept := before ++ call :: results
  callAt := some before.length
  wanted := (pairingTag B call).ids
  answered := results.foldl (fun answered result => answered ∪ resultIds B result) ∅
  calls := (pairingTag B call).parts
  responses := (results.map fun result => (pairingTag B result).parts).sum

variable (call before) in
theorem mem_answered (id : Text) :
    id ∈ (collecting B before call results).answered ↔ ∃ result ∈ results, id ∈ resultIds B result := by
  have hfold : ∀ start : Finset Text, id ∈ results.foldl (fun answered result => answered ∪ resultIds B result) start ↔
      id ∈ start ∨ ∃ result ∈ results, id ∈ resultIds B result := by
    induction results with
    | nil => simp
    | cons result results ih =>
      exact fun start => by rw [List.foldl_cons, ih, Finset.mem_union, List.exists_mem_cons_iff, or_assoc]
  exact (hfold ∅).trans (or_iff_right (Finset.notMem_empty id))

theorem isAdjacent_iff :
    (collecting B before call results).isAdjacent message (pairingTag B message).ids = true ↔
      ∀ last ∈ (call :: results).getLast?, ((pairingTag B call).ids.isSome = true ∧
        (pairingTag B message).ids.isSome = true) ∨ Follows last message := by
  obtain ⟨last, hlast⟩ : ∃ last, (call :: results).getLast? = some last :=
    ⟨_, List.getLast?_eq_some_getLast (List.cons_ne_nil _ _)⟩
  have hkept : (collecting B before call results).kept.getLast? = some last := by
    rw [collecting, List.getLast?_append, hlast, Option.some_or]
  rw [isAdjacent, hkept, hlast, Option.bind_some, Bool.or_eq_true, Bool.and_eq_true]
  simp only [Option.mem_def, Option.some.injEq, forall_eq']
  refine or_congr Iff.rfl ?_
  unfold Follows
  cases providerIndex last <;> cases providerIndex message <;> simp

theorem isWanted_iff :
    (collecting B before call results).isWanted (pairingTag B message).ids = true ↔
      ∀ wanted ∈ (pairingTag B call).ids, resultIds B message ⊆ wanted ∧
        ∀ result ∈ results, Disjoint (resultIds B result) (resultIds B message) := by
  have hwanted : (collecting B before call results).wanted = (pairingTag B call).ids := rfl
  unfold isWanted
  rw [hwanted]
  cases (pairingTag B call).ids with
  | none => simp
  | some wanted =>
    cases hids : (pairingTag B message).ids with
    | none => simp [resultIds, hids]
    | some ids =>
      have hresult : resultIds B message = ids := by rw [resultIds, hids, Option.getD_some]
      simp only [decide_eq_true_eq, Finset.subset_sdiff, Option.mem_def, Option.some.injEq, forall_eq', hresult]
      refine and_congr_right fun _ => ?_
      simp only [Finset.disjoint_left, mem_answered]
      grind

variable (message before) in
theorem collects_concat (hcollects : Collects B call results) :
    Collects B call (results ++ [message]) ↔ (pairingTag B message).role = some .result ∧
      (collecting B before call results).isAdjacent message (pairingTag B message).ids = true ∧
      (collecting B before call results).isWanted (pairingTag B message).ids = true := by
  rw [isAdjacent_iff, isWanted_iff]
  constructor
  · intro h
    have hplaced := h.placed
    rw [← List.cons_append, List.isChain_append] at hplaced
    refine ⟨h.role message (by simp), fun last hlast => hplaced.2.2 last hlast message rfl, fun wanted hwanted => ?_⟩
    obtain ⟨hsubset, honce⟩ := h.asked wanted hwanted
    exact ⟨hsubset message (by simp), fun result hresult =>
      (List.pairwise_append.mp honce).2.2 result hresult message (List.mem_singleton_self _)⟩
  · rintro ⟨hrole, hplace, hasked⟩
    refine ⟨List.forall_mem_append.mpr ⟨hcollects.role, List.forall_mem_singleton.mpr hrole⟩, ?_, fun wanted hwanted => ?_⟩
    · rw [← List.cons_append, List.isChain_append]
      refine ⟨hcollects.placed, List.isChain_singleton _, fun last hlast next hnext => ?_⟩
      obtain rfl : message = next := Option.some.inj hnext
      exact hplace last hlast
    · obtain ⟨hsubset, honce⟩ := hcollects.asked wanted hwanted
      obtain ⟨hnew, hfresh⟩ := hasked wanted hwanted
      refine ⟨List.forall_mem_append.mpr ⟨hsubset, List.forall_mem_singleton.mpr hnew⟩, ?_⟩
      exact List.pairwise_append.mpr ⟨honce, List.pairwise_singleton _ _, fun a ha =>
        List.forall_mem_singleton.mpr (hfresh a ha)⟩

open Classical in
/-- A result is kept exactly if the row of results stays one that the turn collects. -/
theorem step_collecting (hcollects : Collects B call results) (hrole : (pairingTag B message).role = some .result) :
    (collecting B before call results).step B message = collecting B before call
      (if Collects B call (results ++ [message]) then results ++ [message] else results) := by
  have haccepts := collects_concat message before hcollects
  rw [Repair.step, if_pos hrole, Repair.result, show (collecting B before call results).callAt.isSome = true from rfl]
  by_cases h : Collects B call (results ++ [message])
  · rw [if_pos h, (haccepts.mp h).2.1, (haccepts.mp h).2.2]
    simp [collecting, resultIds]
  · rw [if_neg h, if_neg]
    rw [Bool.true_and, Bool.and_eq_true]
    exact fun hboth => h (haccepts.mpr ⟨hrole, hboth⟩)

theorem foldl_collecting (h : Collects B call results) :
    results.foldl (step B) (collecting B before call []) = collecting B before call results := by
  induction results using List.reverseRecOn with
  | nil => rfl
  | append_singleton results result ih =>
    have hresults : Collects B call results :=
      { role := fun a ha => h.role a (List.mem_append_left _ ha)
        placed := (List.isChain_append.mp (List.cons_append ▸ h.placed)).1
        asked := fun wanted hwanted => ⟨fun a ha => (h.asked wanted hwanted).1 a (List.mem_append_left _ ha),
          (List.pairwise_append.mp (h.asked wanted hwanted).2).1⟩ }
    rw [List.foldl_append, ih hresults, List.foldl_cons, List.foldl_nil,
      step_collecting hresults (h.role result (by simp)), if_pos h]

variable (before) in
theorem isOpen_collecting (hcollects : Collects B call results) (hrole : (pairingTag B call).role = some .call) :
    (collecting B before call results).isOpen before.length = false ↔ IsAnswered B call results := by
  have hlength : (collecting B before call results).kept.length = before.length + 1 ↔ results = [] := by
    rw [collecting, List.length_append, List.length_cons, ← List.length_eq_zero_iff]
    omega
  have hanswered : IsAnswered B call results ↔ results ≠ [] ∧ IsComplete B call results :=
    ⟨fun h => ⟨h.results_ne, h.complete⟩, fun h => ⟨hcollects, hrole, h.1, h.2⟩⟩
  have hwanted : (collecting B before call results).wanted = (pairingTag B call).ids := rfl
  rw [isOpen, Bool.or_eq_false_iff, decide_eq_false_iff_not, hlength, hanswered, hwanted, IsComplete]
  refine and_congr_right fun _ => ?_
  cases hids : (pairingTag B call).ids with
  | none => grind [collecting]
  | some wanted =>
    simp only [decide_eq_false_iff_not, ne_eq, not_not, ← mem_answered call before]
    refine ⟨fun h id hid => h ▸ hid, fun h => Finset.Subset.antisymm (fun id hid => ?_) h⟩
    obtain ⟨result, hresult, hid⟩ := (mem_answered call before id).mp hid
    exact (hcollects.asked wanted hids).1 result hresult hid

open Classical in
/-- A call turn is dropped with all that it collected unless all of it is answered. -/
theorem closed_collecting (hcollects : Collects B call results) (hrole : (pairingTag B call).role = some .call) :
    (collecting B before call results).closed = before ++ if IsAnswered B call results then call :: results else [] := by
  have hopen := isOpen_collecting before hcollects hrole
  rw [closed, show (collecting B before call results).callAt = some before.length from rfl]
  dsimp only
  by_cases h : IsAnswered B call results
  · rw [if_pos h, hopen.mpr h]
    rfl
  · rw [if_neg h, if_pos (Bool.not_eq_false _ ▸ mt hopen.mp h), List.append_nil, collecting, List.take_left' rfl]

theorem step_turn (h : (pairingTag B message).role ≠ some .result) (state : Repair) :
    state.step B message = state.turn message (pairingTag B message) := by
  rw [step, if_neg h]

theorem turn_call (state : Repair) (h : (pairingTag B call).role = some .call) :
    state.turn call (pairingTag B call) = collecting B state.closed call [] := by
  rw [turn, h]
  rfl

/-- A repair that has come through some messages. What it keeps is whole segments, and after them an open call turn with
the results it collects. -/
structure Inv (B : Builtins) (seen : List ContextMessage) (state : Repair) : Prop where
  sublist : state.kept.Sublist seen
  plain : plainMessages B state.kept = plainMessages B seen
  paired : ∃ segments : List (List ContextMessage), (∀ segment ∈ segments, IsPaired B segment) ∧
    ((state.callAt = none ∧ state.kept = segments.flatten) ∨
      ∃ call results, (pairingTag B call).role = some .call ∧ Collects B call results ∧
        state = collecting B segments.flatten call results)

variable {seen : List ContextMessage} {state : Repair}

theorem plain_append (a b : List ContextMessage) :
    plainMessages B (a ++ b) = plainMessages B a ++ plainMessages B b :=
  List.filter_append ..

theorem Inv.closed (h : Inv B seen state) : state.closed.Sublist seen ∧
    plainMessages B state.closed = plainMessages B seen ∧
    ∃ segments : List (List ContextMessage), (∀ segment ∈ segments, IsPaired B segment) ∧
      state.closed = segments.flatten := by
  obtain ⟨hsublist, hplain, segments, hsegments, ⟨hcallAt, hkept⟩ | ⟨call, results, hrole, hcollects, rfl⟩⟩ := h
  · have hclosed : state.closed = state.kept := by rw [Repair.closed, hcallAt]
    rw [hclosed]
    exact ⟨hsublist, hplain, segments, hsegments, hkept⟩
  · rw [closed_collecting hcollects hrole]
    by_cases hanswered : IsAnswered B call results
    · rw [if_pos hanswered]
      refine ⟨hsublist, hplain, segments ++ [call :: results], ?_, by simp⟩
      exact List.forall_mem_append.mpr ⟨hsegments, List.forall_mem_singleton.mpr (.answered hanswered)⟩
    · have hdropped : plainMessages B (call :: results) = [] := by
        refine List.filter_eq_nil_iff.mpr (List.forall_mem_cons.mpr ⟨by simp [hrole], fun result hresult => ?_⟩)
        simp [hcollects.role result hresult]
      rw [collecting, plain_append, hdropped, List.append_nil] at hplain
      rw [if_neg hanswered, List.append_nil]
      exact ⟨(List.sublist_append_left _ _).trans hsublist, hplain, segments, hsegments, rfl⟩

theorem Inv.step (h : Inv B seen state) (message : ContextMessage) : Inv B (seen ++ [message]) (state.step B message) := by
  by_cases hrole : (pairingTag B message).role = some .result
  · have hsame : Inv B (seen ++ [message]) state :=
      ⟨h.sublist.trans (List.sublist_append_left _ _), by simpa [plainMessages, hrole] using h.plain, h.paired⟩
    obtain ⟨segments, hsegments, ⟨hcallAt, -⟩ | ⟨call, results, hcall, hcollects, rfl⟩⟩ := h.paired
    · rw [Repair.step, if_pos hrole, Repair.result, hcallAt]
      exact hsame
    · rw [step_collecting hcollects hrole]
      split
      · next hmore =>
        have hkept : (collecting B segments.flatten call (results ++ [message])).kept
            = (collecting B segments.flatten call results).kept ++ [message] := by simp [collecting]
        refine ⟨?_, ?_, segments, hsegments, Or.inr ⟨call, _, hcall, hmore, rfl⟩⟩
        · exact hkept ▸ h.sublist.append (List.Sublist.refl _)
        · rw [hkept, plain_append, plain_append, h.plain]
      · exact hsame
  · obtain ⟨hsublist, hplain, segments, hsegments, hclosed⟩ := h.closed
    rw [step_turn hrole]
    refine ⟨hsublist.append (List.Sublist.refl _), ?_, ?_⟩
    · rw [turn, plain_append, plain_append, hplain]
    · cases hcall : (pairingTag B message).role with
      | none =>
        refine ⟨segments ++ [[message]], ?_, Or.inl ⟨by simp [turn, hcall], by simp [turn, hclosed]⟩⟩
        exact List.forall_mem_append.mpr ⟨hsegments, List.forall_mem_singleton.mpr (.plain hcall)⟩
      | some role =>
        obtain rfl : role = .call := by
          cases role with
          | call => rfl
          | result => exact absurd hcall hrole
        rw [turn_call state hcall, hclosed]
        exact ⟨segments, hsegments, Or.inr ⟨message, [], hcall,
          ⟨List.forall_mem_nil _, List.isChain_singleton _, fun _ _ => ⟨List.forall_mem_nil _, .nil⟩⟩, rfl⟩⟩

theorem inv_foldl (messages : List ContextMessage) : Inv B messages (messages.foldl (step B) {}) := by
  induction messages using List.reverseRecOn with
  | nil => exact ⟨.slnil, rfl, [], List.forall_mem_nil _, Or.inl ⟨rfl, rfl⟩⟩
  | append_singleton messages message ih =>
    rw [List.foldl_append]
    exact ih.step message

theorem closed_paired {segment : List ContextMessage} (h : IsPaired B segment) (state : Repair) :
    (segment.foldl (step B) state).closed = state.closed ++ segment := by
  cases h with
  | plain hplain =>
    rw [List.foldl_cons, List.foldl_nil, step_turn (by rw [hplain]; decide), turn, hplain]
    rfl
  | answered h =>
    rw [List.foldl_cons, step_turn (by rw [h.call_role]; decide), turn_call state h.call_role,
      foldl_collecting h.toCollects, closed_collecting h.toCollects h.call_role, if_pos h]

end Repair

theorem repairToolPairing_paired {segments : List (List ContextMessage)} (h : ∀ segment ∈ segments, IsPaired B segment) :
    repairToolPairing B segments.flatten = segments.flatten := by
  have hclosed : ∀ state : Repair, (segments.flatten.foldl (Repair.step B) state).closed =
      state.closed ++ segments.flatten := by
    induction segments with
    | nil => exact fun state => (List.append_nil _).symm
    | cons segment segments ih =>
      intro state
      obtain ⟨hsegment, hsegments⟩ := List.forall_mem_cons.mp h
      rw [List.flatten_cons, List.foldl_append, ih hsegments, Repair.closed_paired hsegment, List.append_assoc]
  exact hclosed {}

/-- Whatever the history, the repair leaves a part of it in its order, with every message that is no call turn and no
result, in which each call turn stands in front of results that answer all of it; a second repair changes nothing. -/
theorem repairToolPairing_spec (messages : List ContextMessage) :
    (repairToolPairing B messages).Sublist messages ∧
    plainMessages B (repairToolPairing B messages) = plainMessages B messages ∧
    (∃ segments : List (List ContextMessage), (∀ segment ∈ segments, IsPaired B segment) ∧
      repairToolPairing B messages = segments.flatten) ∧
    repairToolPairing B (repairToolPairing B messages) = repairToolPairing B messages := by
  obtain ⟨hsublist, hplain, segments, hsegments, hflatten⟩ := (Repair.inv_foldl (B := B) messages).closed
  change repairToolPairing B messages = segments.flatten at hflatten
  refine ⟨hsublist, hplain, ⟨segments, hsegments, hflatten⟩, ?_⟩
  rw [hflatten, repairToolPairing_paired hsegments]

theorem IsExchange.isAnswered (h : IsExchange B call results) : IsAnswered B call results where
  role := fun result hresult => role_of_isToolResult (h.results_kind result hresult)
  call_role := h.call_role
  results_ne := h.results_ne
  placed := by
    have hanswered := h.answered
    cases hids : (pairingTag B call).ids with
    | none =>
      rw [hids] at hanswered
      exact hanswered.consecutive.imp fun _ _ => Or.inr
    | some wanted =>
      rw [hids] at hanswered
      refine List.Pairwise.isChain (List.pairwise_cons.mpr ⟨fun b hb => Or.inl ⟨rfl, hanswered.named b hb⟩, ?_⟩)
      exact List.pairwise_of_forall_mem_list fun _ _ b hb => Or.inl ⟨rfl, hanswered.named b hb⟩
  asked := by
    have hanswered := h.answered
    intro wanted hwanted
    rw [Option.mem_def.mp hwanted] at hanswered
    exact ⟨fun result hresult id hid => (hanswered.all id).mpr ⟨result, hresult, hid⟩, hanswered.once⟩
  complete := by
    have hanswered := h.answered
    rw [IsComplete]
    cases hids : (pairingTag B call).ids with
    | none =>
      rw [hids] at hanswered
      exact hanswered.responses
    | some wanted =>
      rw [hids] at hanswered
      exact fun id hid => (hanswered.all id).mp hid

theorem repairToolPairing_flatten {segments : List (List ContextMessage)} (h : WellFormed B segments) :
    repairToolPairing B segments.flatten = segments.flatten := by
  refine repairToolPairing_paired fun segment hsegment => ?_
  cases h segment hsegment with
  | plain h => exact .plain h
  | exchange h => exact .answered h.isAnswered

/-! ### Segments as groups -/

theorem isToolResult_of_isToolCall (h : message.isToolCall = true) :
    message.isToolResult = false := by
  have hkind : message.kind = lit "tool_call" := of_decide_eq_true h
  rw [ContextMessage.isToolResult, hkind]
  decide

theorem makesCall_of_isToolCall (h : message.isToolCall = true) : makesCall message = true := by
  rw [makesCall, toolCallSignature]
  split
  · rfl
  · rfl

namespace IsSegment

variable {segment : List ContextMessage}

theorem heads_result (h : IsSegment B segment) : heads ContextMessage.isToolResult segment = false := by
  cases h with
  | plain h => exact isToolResult_of_role (by rw [h]; decide)
  | exchange h => exact isToolResult_of_isToolCall h.call_kind

theorem isGroup (h : IsSegment B segment) : IsGroup ContextMessage.isToolCall ContextMessage.isToolResult segment := by
  cases h with
  | @plain message _ =>
    cases hcall : message.isToolCall with
    | true => exact .opened hcall nofun
    | false => exact .single hcall
  | exchange h => exact .opened h.call_kind h.results_kind

theorem isCallGroup (h : IsSegment B segment) : IsGroup makesCall ContextMessage.isToolResult segment := by
  cases h with
  | @plain message _ =>
    cases hcall : makesCall message with
    | true => exact .opened hcall nofun
    | false => exact .single hcall
  | exchange h => exact .opened (makesCall_of_isToolCall h.call_kind) h.results_kind

theorem system_cases (h : IsSegment B segment) :
    (heads ContextMessage.isSystem segment = true ∧ ∃ message, segment = [message]) ∨
      (heads ContextMessage.isSystem segment = false ∧ ∀ message ∈ segment, message.isSystem = false) := by
  cases h with
  | @plain message _ =>
    cases hsystem : message.isSystem with
    | true => exact Or.inl ⟨hsystem, message, rfl⟩
    | false => exact Or.inr ⟨hsystem, List.forall_mem_singleton.mpr hsystem⟩
  | exchange h => exact Or.inr ⟨h.not_system _ List.mem_cons_self, h.not_system⟩

end IsSegment

section WellFormed

variable {segments : List (List ContextMessage)}

theorem WellFormed.of_sublist {kept : List (List ContextMessage)} (h : WellFormed B segments)
    (hsublist : kept.Sublist segments) : WellFormed B kept := fun segment hsegment => h segment (hsublist.subset hsegment)

theorem providerGroups_flatten (h : WellFormed B segments) : providerGroups segments.flatten = segments :=
  groupRuns_flatten _ _ (fun segment hsegment => (h segment hsegment).isGroup)
    (apart_of_forall _ _ fun segment hsegment => (h segment hsegment).heads_result)

theorem callGroups_flatten (h : WellFormed B segments) : callGroups segments.flatten = segments :=
  groupRuns_flatten _ _ (fun segment hsegment => (h segment hsegment).isCallGroup)
    (apart_of_forall _ _ fun segment hsegment => (h segment hsegment).heads_result)

def systemSegments (segments : List (List ContextMessage)) : List (List ContextMessage) :=
  segments.filter (heads ContextMessage.isSystem)

def otherSegments (segments : List (List ContextMessage)) : List (List ContextMessage) :=
  segments.filter fun segment => !heads ContextMessage.isSystem segment

theorem systemMessages_flatten (h : WellFormed B segments) :
    systemMessages segments.flatten = (systemSegments segments).flatten := by
  induction segments with
  | nil => rfl
  | cons segment segments ih =>
    obtain ⟨hsegment, hsegments⟩ := List.forall_mem_cons.mp h
    have ih := ih hsegments
    unfold systemMessages systemSegments at ih ⊢
    rw [List.flatten_cons, List.filter_append, ih]
    rcases hsegment.system_cases with ⟨hsystem, message, rfl⟩ | ⟨hother, hnone⟩
    · rw [List.filter_cons_of_pos hsystem, List.flatten_cons, List.filter_eq_self.mpr (by simpa [heads] using hsystem)]
    · rw [List.filter_cons_of_neg (by simp [hother]), List.filter_eq_nil_iff.mpr (by simpa using hnone), List.nil_append]

theorem nonSystemMessages_flatten (h : WellFormed B segments) :
    nonSystemMessages segments.flatten = (otherSegments segments).flatten := by
  induction segments with
  | nil => rfl
  | cons segment segments ih =>
    obtain ⟨hsegment, hsegments⟩ := List.forall_mem_cons.mp h
    have ih := ih hsegments
    unfold nonSystemMessages otherSegments at ih ⊢
    rw [List.flatten_cons, List.filter_append, ih]
    rcases hsegment.system_cases with ⟨hsystem, message, rfl⟩ | ⟨hother, hnone⟩
    · have hnone : [message].filter (fun message => !message.isSystem) = [] :=
        List.filter_eq_nil_iff.mpr (by simpa [heads] using hsystem)
      rw [hnone, List.nil_append, List.filter_cons_of_neg (by simp [hsystem])]
    · rw [List.filter_cons_of_pos (by simp [hother]), List.flatten_cons, List.filter_eq_self.mpr (by simpa using hnone)]

end WellFormed

end VidbyteSdk.Middleware.Compaction
