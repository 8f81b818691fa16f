import VidbyteSdk.Providers.GeminiTurns
import Mathlib.Data.List.Chain

/-!
# Contents that Gemini takes

The prompt lands between two segments, and never behind a leading model turn. The contents then open with a user
turn, alternate, and hold one answer turn behind every call turn.
-/

namespace VidbyteSdk.Providers.Gemini

open VidbyteSdk.Lib

structure Accepted (contents : List Message) : Prop where
  opens : ∀ head ∈ contents.head?, head.role ≠ some .model
  alternates : contents.IsChain fun last turn => ¬(last.role = some .model ∧ turn.role = some .model)
  answers : ∀ front turn back, contents = front ++ turn :: back → 0 < functionCalls turn →
    (∃ user ∈ front.getLast?, user.role = some .user) ∧
      ∃ answer ∈ back.head?, isFunctionResponseTurn answer = true ∧
        functionResponses answer = functionCalls turn

/-! ### What one turn asks of the next -/

structure Leads (last turn : Message) : Prop where
  alternates : ¬(last.role = some .model ∧ turn.role = some .model)
  introduced : 0 < functionCalls turn → last.role = some .user
  answered : 0 < functionCalls last →
    isFunctionResponseTurn turn = true ∧ functionResponses turn = functionCalls last

def EndsWell (turns : List Message) : Prop :=
  turns.IsChain Leads ∧ ∀ last ∈ turns.getLast?, functionCalls last = 0

theorem EndsWell.singleton {turn : Message} (h : functionCalls turn = 0) : EndsWell [turn] := by
  refine ⟨List.isChain_singleton _, fun last hlast => ?_⟩
  obtain rfl := Option.mem_some_iff.mp hlast
  exact h

variable {last turn : Message}

theorem EndsWell.cons {turns : List Message} (hleads : Leads last turn)
    (h : EndsWell (turn :: turns)) : EndsWell (last :: turn :: turns) := by
  refine ⟨List.isChain_cons_cons.mpr ⟨hleads, h.1⟩, ?_⟩
  rw [List.getLast?_cons_cons]
  exact h.2

def IsOpen (turn : Message) : Prop := turn.role = some .user ∧ functionCalls turn = 0

theorem IsOpen.leads (h : IsOpen last) : Leads last turn := by
  refine ⟨?_, fun _ => h.1, ?_⟩
  · rw [h.1]
    exact fun hmodel => absurd hmodel.1 (by decide)
  · rw [h.2]
    exact fun hcalls => absurd hcalls (Nat.lt_irrefl 0)

theorem Leads.of_user (hlast : functionCalls last = 0) (hturn : IsOpen turn) :
    Leads last turn := by
  refine ⟨?_, ?_, ?_⟩
  · rw [hturn.1]
    exact fun hmodel => absurd hmodel.2 (by decide)
  · rw [hturn.2]
    exact fun hcalls => absurd hcalls (Nat.lt_irrefl 0)
  · rw [hlast]
    exact fun hcalls => absurd hcalls (Nat.lt_irrefl 0)

theorem Ready.isOpen {message : Message} (h : Ready (.turn message)) (hmodel : message.role ≠ some .model) :
    IsOpen message :=
  ⟨h.1.resolve_right hmodel, h.2.functionCalls_eq_zero⟩

variable {segments : List Segment}

theorem endsWell_settle (h : ∀ segment ∈ segments, Ready segment)
    {pending : Option Message} (hpending : Pending pending) {user : Message} (huser : IsOpen user) :
    EndsWell (user :: (settle pending segments).flatMap answered) := by
  induction segments generalizing pending user with
  | nil =>
    cases pending with
    | none => exact EndsWell.singleton huser.2
    | some last =>
      have hlast := (hpending last rfl).2.functionCalls_eq_zero
      exact EndsWell.cons huser.leads (EndsWell.singleton hlast)
  | cons segment segments ih =>
    have ih := fun {pending} hpending {user} => @ih
      (fun later hlater => h later (List.mem_cons_of_mem _ hlater)) pending hpending user
    have hready := h segment List.mem_cons_self
    cases segment with
    | turn message =>
      rw [settle]
      split
      next hmodel => exact ih (hpending.absorb hmodel hready.2) huser
      next hmodel =>
        have hopen := hready.isOpen hmodel
        have hrest : EndsWell (message :: (settle none segments).flatMap answered) := ih Pending.none hopen
        cases pending with
        | none => exact EndsWell.cons huser.leads hrest
        | some last =>
          have hlast := (hpending last rfl).2.functionCalls_eq_zero
          exact EndsWell.cons huser.leads (EndsWell.cons (Leads.of_user hlast hopen) hrest)
    | exchange call results =>
      obtain ⟨hcall, hcalls, hresults, hsum⟩ := id hready
      obtain ⟨result, later, rfl⟩ := List.exists_cons_of_ne_nil hready.results_ne_nil
      obtain ⟨hanswer, hcount, -⟩ := foldl_joinParts hresults
      have hopen : IsOpen (later.foldl joinParts result) :=
        ⟨(isFunctionResponseTurn_iff.mp hanswer).1, functionCalls_eq_zero_of_response hanswer⟩
      have hleads : Leads (absorb pending call) (later.foldl joinParts result) := by
        refine ⟨?_, ?_, fun _ => ⟨hanswer, ?_⟩⟩
        · rw [hopen.1]
          exact fun hmodel => absurd hmodel.2 (by decide)
        · rw [hopen.2]
          exact fun hzero => absurd hzero (Nat.lt_irrefl 0)
        · rw [hpending.functionCalls_absorb, hcount, hsum]
      exact EndsWell.cons huser.leads (EndsWell.cons hleads (ih Pending.none hopen))

theorem EndsWell.accepted {user : Message} {turns : List Message} (huser : IsOpen user)
    (h : EndsWell (user :: turns)) : Accepted (user :: turns) := by
  refine ⟨?_, h.1.imp fun _ _ hleads => hleads.alternates, ?_⟩
  · intro head hhead
    obtain rfl := Option.mem_some_iff.mp hhead
    rw [huser.1]
    decide
  · intro front turn back hsplit hcalls
    have hchain := h.1
    have hlast := h.2
    rw [hsplit] at hchain hlast
    obtain ⟨-, hback, hfront⟩ := List.isChain_append.mp hchain
    refine ⟨?_, ?_⟩
    · -- The first turn has no calls, so the call turn has one in front of it.
      cases hfrontLast : front.getLast? with
      | none =>
        rw [List.getLast?_eq_none_iff.mp hfrontLast] at hsplit
        obtain ⟨rfl, -⟩ := List.cons_eq_cons.mp hsplit
        have hzero := huser.2
        omega
      | some last => exact ⟨last, rfl, (hfront last hfrontLast turn rfl).introduced hcalls⟩
    · cases back with
      | nil =>
        have hzero := hlast turn List.getLast?_concat
        omega
      | cons answer back => exact ⟨answer, rfl, (List.isChain_cons_cons.mp hback).1.answered hcalls⟩

/-! ### The prompt -/

theorem opensExchange_result {result : Message} (h : isFunctionResponseTurn result = true)
    (previous : Option Message) : opensExchange previous result = false := by
  obtain ⟨hrole, -, hparts⟩ := isFunctionResponseTurn_iff.mp h
  have hcall : hasFunctionCall result = false := by
    refine List.any_eq_false.mpr fun part hpart => ?_
    have hresponse := hparts part hpart
    cases part <;> simp_all [Part.isFunctionResponse]
  simp [opensExchange, hcall, hrole]

theorem Ready.opensExchange {segment : Segment} (h : Ready segment) :
    ∀ result ∈ segment.results, ∀ previous, opensExchange previous result = false := by
  intro result hresult previous
  cases segment with
  | turn message => cases hresult
  | exchange call results => exact opensExchange_result (h.2.2.1 result hresult) previous

theorem promptIndex_between (h : ∀ segment ∈ segments, Ready segment)
    {boundary : Option ℕ} (houtside : OutsideExchanges segments boundary) :
    ∃ before after, segments = before ++ after ∧
      promptIndex (history segments) boundary = (history before).length ∧
      ((history before).length = 0 ∨ ∀ head ∈ (history segments).head?, head.role ≠ some .model) := by
  unfold promptIndex
  cases hboundary : boundary.filter fun b : ℕ =>
      b ≤ (history segments).length ∧ ¬(history segments).head?.any (·.role = some .model) with
  | some b =>
    obtain ⟨hmem, hcond⟩ := Option.filter_eq_some_iff.mp hboundary
    obtain ⟨hle, hhead⟩ := of_decide_eq_true hcond
    obtain ⟨before, after, hsplit, hplace⟩ := houtside b hmem hle
    refine ⟨before, after, hsplit, hplace, .inr fun head hmemHead hmodel => hhead ?_⟩
    rw [Option.mem_def.mp hmemHead]
    exact decide_eq_true hmodel
  | none =>
    obtain ⟨before, after, hsplit, hplace⟩ := firstTurn_eq_length segments
      (fun segment hsegment => (h segment hsegment).opensExchange) none
    refine ⟨before, after, hsplit, hplace, ?_⟩
    by_cases hmodel : ∃ head ∈ (history segments).head?, head.role = some .model
    · obtain ⟨head, hhead, hrole⟩ := hmodel
      obtain ⟨turns, hturns⟩ := List.head?_eq_some_iff.mp hhead
      rw [hturns, firstTurn, if_pos (by simp [opensExchange, hrole])] at hplace
      exact .inl hplace.symm
    · exact .inr fun head hhead hrole => hmodel ⟨head, hhead, hrole⟩

theorem eq_nil_of_length_history (h : (history segments).length = 0) :
    segments = [] := by
  cases segments with
  | nil => rfl
  | cons segment segments => cases segment <;> simp [history, Segment.messages] at h

theorem exists_first {before after : List Segment} {prompt : Message}
    (h : ∀ segment ∈ before, Ready segment) (hprompt : prompt.role ≠ some .model)
    (hlead : (history before).length = 0 ∨
      ∀ head ∈ (history (before ++ after)).head?, head.role ≠ some .model) :
    ∃ first rest, before ++ .turn prompt :: after = .turn first :: rest ∧ first.role ≠ some .model := by
  cases before with
  | nil => exact ⟨prompt, after, rfl, hprompt⟩
  | cons segment before =>
    obtain hnil | hhead := hlead
    · cases eq_nil_of_length_history hnil
    · cases segment with
      | turn message => exact ⟨message, before ++ .turn prompt :: after, rfl, hhead message rfl⟩
      | exchange call results => exact absurd (h _ List.mem_cons_self).1 (hhead call rfl)

/-! ### The contents -/

theorem promptContent_role (prompt : String) : (promptContent prompt).role ≠ some .model :=
  fun h => absurd (Option.some.inj h) (by decide)

theorem ready_prompt (prompt : String) : Ready (.turn (promptContent prompt)) := by
  refine ⟨.inl rfl, fun part hpart => ?_⟩
  rw [List.mem_singleton.mp hpart]
  exact ⟨rfl, rfl⟩

theorem merge_history {first : Message} {rest : List Segment}
    (h : ∀ segment ∈ Segment.turn first :: rest, Ready segment) (hfirst : first.role ≠ some .model) :
    mergeFunctionResponses (mergeModelTurns (history (.turn first :: rest))) =
      first :: (settle none rest).flatMap answered := by
  have hrest : ∀ segment ∈ rest, Ready segment := fun segment hsegment => h segment (List.mem_cons_of_mem _ hsegment)
  have hmodels : mergeModelTurns (history (.turn first :: rest)) = first :: history (settle none rest) := by
    show mergeAdjacent joinsModel joinParts (first :: history rest) = _
    rw [mergeAdjacent_cons]
    exact (mergeFrom_history hrest).1 first hfirst
  rw [hmodels]
  unfold mergeFunctionResponses
  rw [mergeAdjacent_cons]
  exact mergeFrom_answerable (answerable_settle hrest Pending.none) first

theorem flatMap_flat_map (str : Content → String) (messages : List Message) :
    (messages.map (geminiTurn str)).flatMap flat = messages.flatMap (said str) := by
  rw [List.flatMap_map]
  exact List.flatMap_congr fun message _ => flat_geminiTurn str message

theorem createContents_spec (str : Content → String)
    (h : ∀ segment ∈ segments, GeminiSegment segment) {boundary : Option ℕ}
    (houtside : OutsideExchanges segments boundary) (prompt : String) :
    ∃ before after, segments = before ++ after ∧
      (∃ front back, createContents str (history segments) boundary prompt =
          front ++ promptContent prompt :: back ∧
        front.flatMap flat = (history before).flatMap (said str) ∧
        back.flatMap flat = (history after).flatMap (said str)) ∧
      Accepted (createContents str (history segments) boundary prompt) := by
  have hready : ∀ segment ∈ segments.map (Segment.map (geminiTurn str)), Ready segment := by
    intro segment hsegment
    obtain ⟨original, horiginal, rfl⟩ := List.mem_map.mp hsegment
    exact (h original horiginal).ready str
  obtain ⟨front, back, hsplit, hplace, hlead⟩ := promptIndex_between hready (houtside.map (geminiTurn str))
  rw [hsplit] at hready hlead
  have hfront : ∀ segment ∈ front, Ready segment := fun segment hsegment =>
    hready segment (List.mem_append_left back hsegment)
  have hback : ∀ segment ∈ back, Ready segment := fun segment hsegment =>
    hready segment (List.mem_append_right front hsegment)
  obtain ⟨first, rest, hfirst, hrole⟩ := exists_first hfront (promptContent_role prompt) hlead
  have hall : ∀ segment ∈ Segment.turn first :: rest, Ready segment := by
    intro segment hsegment
    rw [← hfirst] at hsegment
    obtain hsegment | hsegment := List.mem_append.mp hsegment
    · exact hfront segment hsegment
    · obtain rfl | hsegment := List.mem_cons.mp hsegment
      · exact ready_prompt prompt
      · exact hback segment hsegment
  have hcontents : createContents str (history segments) boundary prompt =
      first :: (settle none rest).flatMap answered := by
    have hinsert : insertTurn (history (front ++ back)) (history front).length (promptContent prompt) =
        history (.turn first :: rest) := by
      rw [insertTurn_history, ← hfirst, history_append]
      rfl
    unfold createContents
    simp only [map_history]
    rw [hplace, hsplit, hinsert, merge_history hall hrole]
  have huser : IsOpen first := (hall _ List.mem_cons_self).isOpen hrole
  have hends := endsWell_settle (fun segment hsegment => hall segment (List.mem_cons_of_mem _ hsegment))
    Pending.none huser
  have hpieces : first :: (settle none rest).flatMap answered =
      (settle none front).flatMap answered ++ promptContent prompt :: (settle none back).flatMap answered := by
    have hsettle := settle_append_turn front back (promptContent_role prompt) none
    rw [hfirst, settle, if_neg hrole] at hsettle
    have hanswered := congrArg (List.flatMap answered) hsettle
    rwa [List.flatMap_append, List.flatMap_append] at hanswered
  obtain ⟨before, after, rfl, rfl, rfl⟩ := List.map_eq_append_iff.mp hsplit
  refine ⟨before, after, rfl, ⟨_, _, hcontents.trans hpieces, ?_, ?_⟩, ?_⟩
  · rw [flat_settle hfront Pending.none, ← map_history, flatMap_flat_map]
    rfl
  · rw [flat_settle hback Pending.none, ← map_history, flatMap_flat_map]
    rfl
  · rw [hcontents]
    exact hends.accepted huser

end VidbyteSdk.Providers.Gemini
