import VidbyteSdk.Agents.Loop.Transcript

/-!
# Answered transcripts over a whole run

At the head of the loop the messages are answered; while a turn is processed they are `Answering`. Each
function that answers a call has one lemma, and the run lemma says that every request was given an
answered transcript.
-/

namespace VidbyteSdk.Agents.Loop

open VidbyteSdk.Lib Prog

variable {A T W : Type}

structure Told (A T : Type) where
  messages : List (Entry A T)
  iterationCount : Nat
  sent : List (List (Entry A T))

def LoopRun.told (run : LoopRun A T W) : Told A T :=
  ⟨run.state.messages, run.state.iterationCount, run.sent⟩

instance : HidesWorld (LoopRun.told : LoopRun A T W → Told A T) := ⟨fun _ _ => rfl⟩

/-- Every request was given an answered transcript. -/
def Sound (t : Told A T) : Prop := ∀ conversation ∈ t.sent, Answered conversation

structure AtHead (t : Told A T) : Prop where
  sound : Sound t
  answered : Answered t.messages
  before : ∀ entry ∈ t.messages, Before (t.iterationCount + 1) entry

structure InTurn (calls left : List (ToolCall A)) (t : Told A T) : Prop where
  sound : Sound t
  answering : Answering t.iterationCount calls left t.messages

section

variable {t : Told A T} {calls left : List (ToolCall A)} {call : ToolCall A}

theorem InTurn.atHead (h : InTurn calls [] t) : AtHead t :=
  ⟨h.sound, h.answering.close, h.answering.before⟩

theorem InTurn.answer (h : InTurn calls (call :: left) t) {entry : Entry A T}
    (hentry : IsResultOf t.iterationCount call entry) :
    InTurn calls left { t with messages := t.messages ++ [entry] } :=
  ⟨h.sound, h.answering.answer hentry⟩

theorem AtHead.note (h : AtHead t) {plain : List (Entry A T)} (hplain : ∀ entry ∈ plain, IsPlain entry) :
    AtHead { t with messages := t.messages ++ plain } := by
  refine ⟨h.sound, h.answered.append_plain h.before hplain, fun entry hentry => ?_⟩
  rcases List.mem_append.mp hentry with hentry | hentry
  · exact h.before entry hentry
  · exact (hplain entry hentry).before

theorem AtHead.send (h : AtHead t) {conversation : List (Entry A T)} (hanswered : Answered conversation) :
    AtHead { t with sent := t.sent ++ [conversation] } := by
  refine ⟨fun c hc => ?_, h.answered, h.before⟩
  rcases List.mem_append.mp hc with hc | hc
  · exact h.sound c hc
  · rw [List.mem_singleton.mp hc]
    exact hanswered

theorem formatToolResult_of_prepared {prepared : ToolCall A} (hname : prepared.toolName = call.toolName)
    (hid : prepared.callId = call.callId) (result : ToolResult) (provider : WireFormat) :
    (formatToolResult prepared result provider : Message T) = formatToolResult call result provider := by
  have hcallId : formatToolResult.callId prepared = formatToolResult.callId call := by
    unfold formatToolResult.callId
    rw [hname, hid]
  cases provider
  · unfold formatToolResult
    rw [hcallId, hname]
  · unfold formatToolResult
    rw [hcallId]
  · unfold formatToolResult
    rw [hname]

end

namespace LoopM

variable {α β : Type} {env : Surroundings A T W}

/-! ### What tells the model nothing -/

/-- The program adds nothing to what the model is told. -/
abbrev Still (m : LoopM A T W α) : Prop := Leaves LoopRun.told m

theorem still_modifyState {change : LoopState A T → LoopState A T}
    (h : ∀ s, (change s).messages = s.messages ∧ (change s).iterationCount = s.iterationCount) :
    Still (modifyState change : LoopM A T W Unit) := by
  refine Leaves.modify fun run => ?_
  obtain ⟨hmessages, hcount⟩ := h run.state
  unfold LoopRun.told
  rw [hmessages, hcount]

theorem still_resume : Still (resume : LoopM A T W Unit) := Leaves.modify fun _ => rfl

theorem still_reject : Still (reject : LoopM A T W Unit) := still_modifyState fun _ => ⟨rfl, rfl⟩

theorem still_appendContext (context : ToolCallContext A) :
    Still (appendContext context : LoopM A T W Unit) :=
  still_modifyState fun _ => ⟨rfl, rfl⟩

theorem still_adoptAgentCatalog : Still (adoptAgentCatalog env) :=
  leaves_getState.bind fun _ => (leaves_call _ _).bind fun _ => Leaves.modify fun _ => rfl

/-! ### Answers -/

/-- Every request is given an answered transcript; a normal end satisfies `Q`. -/
abbrev Tells (m : LoopM A T W α) (Q : α → LoopRun A T W → Prop) (run : LoopRun A T W) : Prop :=
  Maintains (fun r => Sound r.told) m Q run

def headAfterStep : Option α → LoopRun A T W → Prop
  | none, run => AtHead run.told
  | some _, run => Sound run.told

def headAfterTurn : TurnEnd A → LoopRun A T W → Prop
  | .finished _, run => Sound run.told
  | .refused, run | .worked, run => AtHead run.told

section

variable {run : LoopRun A T W} {calls left : List (ToolCall A)} {call : ToolCall A}

theorem headAfterStep_of_still {n : LoopM A T W (Option α)} (hn : Still n) (h : AtHead run.told) :
    Tells n headAfterStep run := by
  refine (hn.maintains h.sound).post fun x r hr => ?_
  rw [← hr] at h
  cases x with
  | none => exact h
  | some a => exact h.sound

theorem appendMessages_tells {plain : List (Entry A T)} (h : AtHead run.told)
    (hplain : ∀ entry ∈ plain, IsPlain entry) :
    Tells (appendMessages plain) (fun _ r => AtHead r.told) run :=
  (wp_modifyState _).mpr ⟨(h.note hplain).sound, h.note hplain⟩

theorem appendToolResultMessage_tells {prepared : ToolCall A} (result : ToolResult) (truncate : Bool)
    (h : InTurn calls (call :: left) run.told) (hname : prepared.toolName = call.toolName)
    (hid : prepared.callId = call.callId) :
    Tells (appendToolResultMessage env prepared result truncate)
      (fun _ r => InTurn calls left r.told) run := by
  unfold appendToolResultMessage
  refine (leaves_call _ _).andThen h.sound fun visible r hr => ?_
  rw [← hr] at h
  apply maintains_getState
  have hentry : IsResultOf r.told.iterationCount call (⟨.result r.state.iterationCount prepared,
      formatToolResult prepared visible r.state.provider⟩ : Entry A T) :=
    ⟨⟨prepared, rfl⟩, visible, r.state.provider, formatToolResult_of_prepared hname hid _ _⟩
  have hnext := h.answer hentry
  exact (wp_modifyState _).mpr ⟨hnext.sound, hnext⟩

theorem answerSkippedToolCalls_tells (h : InTurn calls left run.told) :
    Tells (answerSkippedToolCalls env left) (fun _ r => InTurn calls [] r.told) run := by
  unfold answerSkippedToolCalls
  induction left generalizing run with
  | nil => exact Maintains.pure h
  | cons call left ih =>
    rw [List.forM_cons]
    refine ((appendToolResultMessage_tells _ _ h rfl rfl).post fun _ r hr => ?_).bind
    exact ih hr

/-! ### Tool calls -/

/-- After a call that may have stopped the run: a finish is still to be answered. -/
def afterAnswer (calls left : List (ToolCall A)) (call : ToolCall A) :
    AgentResult A ⊕ ToolResult → LoopRun A T W → Prop
  | .inl _, run => Sound run.told
  | .inr result, run =>
    if isFinish call result then InTurn calls (call :: left) run.told else InTurn calls left run.told

theorem isFinish_error (call : ToolCall A) (toolName output : String) :
    isFinish call (.error toolName output) = false := by
  simp [isFinish, ToolResult.error]

theorem afterAnswer_of_not_finish {result : ToolResult} {r : LoopRun A T W}
    (hfinish : isFinish call result = false) (h : InTurn calls left r.told) :
    afterAnswer calls left call (.inr result) r := by
  simp only [afterAnswer, hfinish]
  exact h

theorem afterAnswer_of_finish {result : ToolResult} {r : LoopRun A T W}
    (hfinish : isFinish call result = true) (h : InTurn calls (call :: left) r.told) :
    afterAnswer calls left call (.inr result) r := by
  simp only [afterAnswer, hfinish]
  exact h

theorem applyToolDenial_tells {prepared : ToolCall A} (reason : DenialReason)
    (h : InTurn calls (call :: left) run.told) (hname : prepared.toolName = call.toolName)
    (hid : prepared.callId = call.callId) :
    Tells (applyToolDenial env prepared reason) (afterAnswer calls left call) run := by
  unfold applyToolDenial
  by_cases habort : env.config.toolSettings.any (·.abortsOnDeny)
  · rw [if_pos habort]
    exact Maintains.map _ ((leaves_stoppedResult _ _).ends h.sound)
  · rw [if_neg habort]
    apply maintains_getState
    refine (still_appendContext _).andThen h.sound fun _ r hr => ?_
    rw [← hr] at h
    refine ((appendToolResultMessage_tells _ _ h hname hid).post fun _ r' hr' => ?_).bind
    exact Maintains.pure (afterAnswer_of_not_finish (isFinish_error ..) hr')

theorem enforceToolSettings_tells {prepared : ToolCall A} (toolIsInternal : Bool)
    (h : InTurn calls (call :: left) run.told) (hname : prepared.toolName = call.toolName)
    (hid : prepared.callId = call.callId) :
    Tells (enforceToolSettings env prepared toolIsInternal) (fun outcome r =>
      match outcome with
      | some outcome => afterAnswer calls left call outcome r
      | none => InTurn calls (call :: left) r.told) run := by
  unfold enforceToolSettings
  refine leaves_spendCapStop.andThen h.sound fun stopped r hr => ?_
  rw [← hr] at h
  cases stopped with
  | some result => exact Maintains.pure h.sound
  | none =>
    by_cases htool : toolIsInternal = true
    · rw [if_pos htool]
      exact Maintains.pure h
    · rw [if_neg htool]
      apply maintains_getState
      cases enforcement env.config r.state.tools prepared r.state.callContexts
          r.state.iterationCount with
      | stop stop => exact Maintains.map _ ((leaves_stoppedResult _ _).ends h.sound)
      | deny reason => exact Maintains.map _ (applyToolDenial_tells reason h hname hid)
      | allow => exact Maintains.pure h

theorem recordToolCall_tells {prepared : ToolCall A} (toolIsInternal : Bool) (state : ToolCallState)
    (result : ToolResult) (afterDecision : MiddlewareDecision)
    (h : InTurn calls (call :: left) run.told) (hname : prepared.toolName = call.toolName)
    (hid : prepared.callId = call.callId) :
    Tells (recordToolCall env prepared toolIsInternal state result afterDecision) (fun _ r =>
      Sound r.told ∧
        (afterDecision.action ≠ .abortRun → afterAnswer calls left call (.inr result) r)) run := by
  unfold recordToolCall answerToolCall
  apply maintains_getState
  have hsame : isFinish prepared result = isFinish call result := by
    unfold isFinish
    rw [hname]
  by_cases hskip : afterDecision.action = .abortRun ∨ isFinish prepared result
  · rw [if_pos hskip]
    refine (Leaves.pure _).andThen h.sound fun _ r hr => ?_
    rw [← hr] at h
    refine (still_appendContext _).andThen h.sound fun _ r' hr' => ?_
    rw [← hr'] at h
    refine Maintains.pure ⟨h.sound, fun hgo => ?_⟩
    have hfinish : isFinish call result = true := by
      rw [← hsame]
      exact hskip.resolve_left hgo
    exact afterAnswer_of_finish hfinish h
  · rw [if_neg hskip]
    have hfinish : isFinish call result = false := by
      rw [← hsame]
      simpa using fun hf => hskip (.inr hf)
    refine ((appendToolResultMessage_tells _ _ h hname hid).post fun _ r hr => ?_).bind
    refine (still_appendContext _).andThen hr.sound fun _ r' hr' => ?_
    rw [← hr'] at hr
    exact Maintains.pure ⟨hr.sound, fun _ => afterAnswer_of_not_finish hfinish hr⟩

theorem settleToolCall_tells {prepared : ToolCall A} (toolIsInternal : Bool)
    (decision : MiddlewareDecision) (fuel : Nat) (h : InTurn calls (call :: left) run.told)
    (hname : prepared.toolName = call.toolName) (hid : prepared.callId = call.callId) :
    Tells (settleToolCall env prepared toolIsInternal decision fuel)
      (afterAnswer calls left call) run := by
  unfold settleToolCall
  refine (leaves_runToolAttempts _ _ _).andThen h.sound fun (state, result, afterDecision) r hr => ?_
  rw [← hr] at h
  refine ((recordToolCall_tells toolIsInternal state result afterDecision h hname hid).post
    fun context r' ⟨hsound, hanswer⟩ => ?_).bind
  by_cases habort : afterDecision.action = .abortRun
  · rw [if_pos habort]
    exact Maintains.map _ ((leaves_middlewareAbortResult _).ends hsound)
  · rw [if_neg habort]
    apply maintains_getState
    cases failureStop env.config context toolIsInternal r'.state.callContexts with
    | some stop => exact Maintains.map _ ((leaves_stoppedResult _ _).ends hsound)
    | none => exact Maintains.pure (hanswer habort)

theorem processToolCall_tells (fuel : Nat) (h : InTurn calls (call :: left) run.told) :
    Tells (processToolCall env fuel call) (afterAnswer calls left call) run := by
  unfold processToolCall
  refine still_resume.andThen h.sound fun _ r hr => ?_
  rw [← hr] at h
  apply maintains_getState
  have hprepared : (r.state.tools.prepareCall call).toolName = call.toolName := rfl
  refine ((enforceToolSettings_tells _ h hprepared rfl).post fun outcome r' houtcome => ?_).bind
  cases outcome with
  | some outcome => exact Maintains.pure houtcome
  | none =>
    refine (leaves_hook _).andThen houtcome.sound fun decision r'' hr'' => ?_
    rw [← hr''] at houtcome
    by_cases habort : decision.action = .abortRun
    · rw [if_pos habort]
      exact Maintains.map _ ((leaves_middlewareAbortResult _).ends houtcome.sound)
    · rw [if_neg habort]
      exact settleToolCall_tells _ _ _ houtcome hprepared rfl

/-! ### Finish attempts -/

theorem continueFinishAttempt_tells (h : AtHead run.told) :
    Tells (continueFinishAttempt env) (fun _ r => AtHead r.told) run := by
  unfold continueFinishAttempt
  apply maintains_getState
  refine (leaves_call _ _).andThen h.sound fun messages r hr => ?_
  rw [← hr] at h
  cases messages with
  | none => exact Maintains.pure h
  | some messages =>
    refine ((appendMessages_tells h ?_).post fun _ r' hr' => Maintains.pure hr').bind
    intro entry hentry
    obtain ⟨message, -, rfl⟩ := List.mem_map.mp hentry
    exact .inr rfl

theorem rejectFinish_tells (feedback : String) (h : InTurn calls (call :: left) run.told) :
    Tells (rejectFinish env call left feedback) headAfterTurn run := by
  unfold rejectFinish
  refine still_reject.andThen h.sound fun _ r hr => ?_
  rw [← hr] at h
  refine ((appendToolResultMessage_tells _ _ h rfl rfl).post fun _ r hr => ?_).bind
  refine ((answerSkippedToolCalls_tells hr).post fun _ r hr => ?_).bind
  exact Maintains.pure hr.atHead

theorem reviewFinishAttempt_tells (result : ToolResult) (h : InTurn calls (call :: left) run.told) :
    Tells (reviewFinishAttempt env call result left) headAfterTurn run := by
  unfold reviewFinishAttempt
  refine ((appendToolResultMessage_tells _ _ h rfl rfl).post fun _ r hr => ?_).bind
  refine ((answerSkippedToolCalls_tells hr).post fun _ r hr => ?_).bind
  have hhead := hr.atHead
  apply maintains_getState
  refine (leaves_call _ _).andThen hhead.sound fun review r hr => ?_
  rw [← hr] at hhead
  cases review.action with
  | stop =>
    exact Maintains.map _ ((leaves_finishWith _ _).ends hhead.sound)
  | «continue» =>
    refine ((appendMessages_tells hhead ?_).post fun _ r hr => Maintains.pure hr).bind
    intro entry hentry
    rw [List.mem_singleton.mp hentry]
    exact .inr rfl
  | accept =>
    refine ((continueFinishAttempt_tells hhead).post fun continued r hr => ?_).bind
    cases continued with
    | true => exact Maintains.pure hr
    | false => exact Maintains.map _ ((leaves_finishWith _ _).ends hr.sound)

theorem finishToolCall_tells (result : ToolResult) (h : InTurn calls (call :: left) run.told) :
    Tells (finishToolCall env call result left) headAfterTurn run := by
  unfold finishToolCall
  refine leaves_afterIteration.andThen h.sound fun stopped r hr => ?_
  rw [← hr] at h
  cases stopped with
  | some stopped => exact Maintains.pure h.sound
  | none =>
    refine (leaves_contractVerdict _).andThen h.sound fun verdict r hr => ?_
    rw [← hr] at h
    cases verdict with
    | exhausted => exact Maintains.map _ ((leaves_finishWith _ _).ends h.sound)
    | unmet feedback => exact rejectFinish_tells feedback h
    | met => exact reviewFinishAttempt_tells result h

theorem processToolCalls_tells (fuel : Nat) (h : InTurn calls left run.told) :
    Tells (processToolCalls env fuel left) headAfterTurn run := by
  induction left generalizing run with
  | nil => exact Maintains.pure h.atHead
  | cons call left ih =>
    unfold processToolCalls
    refine ((processToolCall_tells fuel h).post fun outcome r houtcome => ?_).bind
    cases outcome with
    | inl result => exact Maintains.map _ ((leaves_finishResult result).ends houtcome)
    | inr result =>
      simp only [afterAnswer] at houtcome
      by_cases hfinish : isFinish call result
      · rw [if_pos hfinish] at houtcome
        simp only [if_pos hfinish]
        exact finishToolCall_tells result houtcome
      · rw [if_neg hfinish] at houtcome
        simp only [if_neg hfinish]
        exact ih houtcome

/-! ### Iterations -/

/-- A run whose reply was just counted: nothing is of the new iteration yet. -/
structure AtReply (t : Told A T) : Prop where
  sound : Sound t
  answered : Answered t.messages
  before : ∀ entry ∈ t.messages, Before t.iterationCount entry

theorem AtReply.atHead {t : Told A T} (h : AtReply t) : AtHead t :=
  ⟨h.sound, h.answered, fun entry hentry => (h.before entry hentry).mono (Nat.le_succ _)⟩

theorem appendTurn_tells (reply : ModelReply A T) (calls : List (ToolCall A)) (h : AtReply run.told) :
    Tells (appendTurn reply calls) (fun _ r => InTurn calls calls r.told) run := by
  unfold appendTurn
  apply maintains_getState
  cases reply.assistantTurn with
  | none =>
    refine Maintains.pure ⟨h.sound, ⟨run.state.messages, [], [], [], ?_, h.answered, h.before, ?_⟩⟩
    · exact (List.append_nil _).symm
    · exact ⟨.inl rfl, rfl, .nil⟩
  | some turn =>
    refine (wp_modifyState _).mpr ⟨h.sound, h.sound, ⟨run.state.messages,
      [⟨.turn run.state.iterationCount calls, .raw turn⟩], [], [], rfl, h.answered, h.before, ?_⟩⟩
    exact ⟨.inr ⟨.raw turn, rfl⟩, rfl, .nil⟩

theorem finishToolIteration_tells (h : AtHead run.told) :
    Tells (finishToolIteration env) headAfterStep run := by
  unfold finishToolIteration
  refine leaves_afterIteration.andThen h.sound fun stopped r hr => ?_
  rw [← hr] at h
  cases stopped with
  | some result => exact Maintains.pure h.sound
  | none =>
    refine leaves_spendCapStop.andThen h.sound fun stopped r hr => ?_
    rw [← hr] at h
    cases stopped with
    | some result => exact Maintains.map _ ((leaves_finishResult _).ends h.sound)
    | none =>
      apply maintains_getState
      refine (leaves_call _ _).andThen h.sound fun messages r hr => ?_
      rw [← hr] at h
      refine ((appendMessages_tells h ?_).post fun _ r hr => ?_).bind
      · intro entry hentry
        obtain ⟨message, -, rfl⟩ := List.mem_map.mp hentry
        exact .inr rfl
      · exact headAfterStep_of_still (still_adoptAgentCatalog.bind fun _ => Leaves.pure _) hr

theorem toolIteration_tells (fuel : Nat) (reply : ModelReply A T) (calls : List (ToolCall A))
    (h : AtReply run.told) : Tells (toolIteration env fuel reply calls) headAfterStep run := by
  unfold toolIteration
  refine ((appendTurn_tells reply calls h).post fun _ r hr => ?_).bind
  refine ((processToolCalls_tells fuel hr).post fun turnEnd r hturn => ?_).bind
  cases turnEnd with
  | finished result => exact Maintains.pure hturn
  | refused => exact headAfterStep_of_still (still_adoptAgentCatalog.bind fun _ => Leaves.pure _) hturn
  | worked => exact finishToolIteration_tells hturn

theorem isPlain_of_mem_draftFeedback {text feedback : String} {entry : Entry A T}
    (h : entry ∈ draftFeedback text feedback) : IsPlain entry := by
  unfold draftFeedback at h
  rcases List.mem_append.mp h with h | h
  · by_cases hblank : isBlank text = true
    · rw [if_pos hblank] at h
      cases h
    · rw [if_neg hblank] at h
      rw [List.mem_singleton.mp h]
      exact .inr rfl
  · rw [List.mem_singleton.mp h]
    exact .inr rfl

theorem reviewFinalAnswer_tells (text : String) (h : AtHead run.told) :
    Tells (reviewFinalAnswer env text) headAfterStep run := by
  unfold reviewFinalAnswer
  apply maintains_getState
  refine (leaves_call _ _).andThen h.sound fun review r hr => ?_
  rw [← hr] at h
  cases review.action with
  | stop => exact Maintains.map _ ((leaves_finishWith _ _).ends h.sound)
  | «continue» =>
    refine ((appendMessages_tells h fun entry => isPlain_of_mem_draftFeedback).post fun _ r hr => ?_).bind
    exact headAfterStep_of_still leaves_afterIteration hr
  | accept =>
    refine leaves_afterIteration.andThen h.sound fun stopped r hr => ?_
    rw [← hr] at h
    cases stopped with
    | some result => exact Maintains.pure h.sound
    | none =>
      refine ((continueFinishAttempt_tells h).post fun continued r hr => ?_).bind
      cases continued with
      | true =>
        refine ((appendMessages_tells hr ?_).post fun _ r hr => Maintains.pure hr).bind
        intro entry hentry
        rw [List.mem_singleton.mp hentry]
        exact .inr rfl
      | false => exact Maintains.map _ ((leaves_finishWith _ _).ends hr.sound)

theorem finalAnswer_tells (text : String) (h : AtHead run.told) :
    Tells (finalAnswer env text) headAfterStep run := by
  unfold finalAnswer
  refine (leaves_contractVerdict _).andThen h.sound fun verdict r hr => ?_
  rw [← hr] at h
  cases verdict with
  | exhausted => exact Maintains.map _ ((leaves_finishWith _ _).ends h.sound)
  | unmet feedback =>
    refine still_reject.andThen h.sound fun _ r hr => ?_
    rw [← hr] at h
    refine ((appendMessages_tells h fun entry => isPlain_of_mem_draftFeedback).post fun _ r hr => ?_).bind
    exact headAfterStep_of_still leaves_afterIteration hr
  | met => exact reviewFinalAnswer_tells text h

theorem answerIteration_tells (text : String) (h : AtHead run.told) :
    Tells (answerIteration env text) headAfterStep run := by
  unfold answerIteration
  refine leaves_spendCapStop.andThen h.sound fun stopped r hr => ?_
  rw [← hr] at h
  cases stopped with
  | some result => exact Maintains.map _ ((leaves_finishResult _).ends h.sound)
  | none =>
    apply maintains_getState
    by_cases htokens : tokensReached env.config.maxTokens r.state.tokensUsed
    · rw [if_pos htokens]
      exact Maintains.map _ ((leaves_finishWith _ _).ends h.sound)
    · rw [if_neg htokens]
      exact finalAnswer_tells text h

/-! ### Requests -/

theorem request_keeps_atHead {conversation : List (Entry A T)} (hanswered : Answered conversation) :
    Keeps (fun r => AtHead r.told) (request env conversation) := by
  have hsent : Keeps (fun r : LoopRun A T W => AtHead r.told)
      (Prog.modify fun run => { run with sent := run.sent ++ [conversation] } : LoopM A T W Unit) :=
    Keeps.modify fun _ h => h.send hanswered
  exact hsent.bind fun _ => still_resume.keeps.bind fun _ => (leaves_attempt _ _).keeps

theorem buildConversationMessages_answered (h : AtHead run.told) :
    Tells (buildConversationMessages env)
      (fun conversation r => AtHead r.told ∧ Answered conversation) run := by
  unfold buildConversationMessages
  apply maintains_getState
  have hplain : ∀ messages : List (Message T), ∀ entry ∈ messages.map (fun message => ⟨.note, message⟩),
      IsPlain (entry : Entry A T) := by
    intro messages entry hentry
    obtain ⟨message, -, rfl⟩ := List.mem_map.mp hentry
    exact .inr rfl
  refine (leaves_readWorld _).andThen h.sound fun (top, last) r hr => ?_
  rw [← hr] at h
  refine Maintains.pure ⟨h, ?_⟩
  have hrun : run.state.messages = r.told.messages := (congrArg Told.messages hr).symm
  rw [hrun]
  have hbefore : ∀ entry ∈ (top.map fun message => ⟨.note, message⟩) ++ r.told.messages,
      Before (r.told.iterationCount + 1) entry := by
    intro entry hentry
    rcases List.mem_append.mp hentry with hentry | hentry
    · exact (hplain top entry hentry).before
    · exact h.before entry hentry
  exact (h.answered.plain_append (hplain top)).append_plain hbefore (hplain last)

theorem fallbackTransition_keeps_atHead (failure : LoopFailure) :
    Keeps (fun r => AtHead r.told) (fallbackTransition env failure) := by
  cases failure with
  | outOfFuel => exact Keeps.throw _
  | raised raised =>
    refine leaves_getState.keeps.bind fun s => ?_
    cases fallbackAdvance env raised s.fallbackIndex with
    | none => exact Keeps.throw _
    | some index =>
      apply Keeps.modify
      intro run h
      show AtHead ⟨if env.fallback.getD index s.provider = run.state.provider then run.state.messages else [],
        run.state.iterationCount, run.sent⟩
      split
      · exact h
      · exact ⟨h.sound, answered_nil, fun entry hentry => absurd hentry List.not_mem_nil⟩

theorem requestIteration_tells (fuel : Nat) (h : AtHead run.told) :
    Tells (requestIteration env fuel) (fun _ r => AtHead r.told) run := by
  unfold requestIteration
  refine ((buildConversationMessages_answered h).post fun conversation r ⟨hhead, hanswered⟩ => ?_).bind
  have hinvoke : Keeps (fun r : LoopRun A T W => AtHead r.told)
      (invokeWithMiddleware env conversation fuel) :=
    keeps_invokeWithMiddleware (request_keeps_atHead hanswered) fuel
  refine Keeps.maintains (Keeps.tryCatch hinvoke.map fun failure => ?_) (fun _ h => h.sound) hhead
  exact (fallbackTransition_keeps_atHead failure).bind fun _ => Keeps.pure _

/-! ### The loop -/

theorem handleReply_tells (fuel : Nat) (reply : ModelReply A T) (h : AtHead run.told) :
    Tells (handleReply env fuel reply) headAfterStep run := by
  unfold handleReply
  have hcount : Tells (countReply reply) (fun _ r => AtReply r.told) run :=
    (wp_modifyState _).mpr ⟨h.sound, h.sound, h.answered, h.before⟩
  refine (hcount.post fun _ r hr => ?_).bind
  refine (leaves_hook _).andThen hr.sound fun decision r' hr' => ?_
  rw [← hr'] at hr
  by_cases hgo : decision.action = .continue
  · rw [if_pos hgo]
    rcases reply.toolCalls with raised | _ | ⟨call, calls⟩
    · exact Maintains.throw hr.sound
    · exact answerIteration_tells _ hr.atHead
    · exact toolIteration_tells fuel reply (call :: calls) hr
  · rw [if_neg hgo]
    exact headAfterStep_of_still
      ((leaves_middlewareAbortResult _).bind fun _ => (leaves_finishResult _).map _) hr.atHead

theorem iteration_tells (fuel : Nat) (h : AtHead run.told) :
    Tells (iteration env fuel) headAfterStep run := by
  unfold iteration
  refine leaves_budgetStop.andThen h.sound fun stopped r hr => ?_
  rw [← hr] at h
  cases stopped with
  | some result => exact headAfterStep_of_still ((leaves_finishResult _).map _) h
  | none =>
    refine (leaves_hook _).andThen h.sound fun decision r hr => ?_
    rw [← hr] at h
    by_cases hgo : decision.action = .continue
    · rw [if_pos hgo]
      refine ((requestIteration_tells fuel h).post fun outcome r hr => ?_).bind
      rcases outcome with _ | result | reply
      · exact Maintains.pure hr
      · exact headAfterStep_of_still ((leaves_finishResult _).map _) hr
      · exact handleReply_tells fuel reply hr
    · rw [if_neg hgo]
      exact headAfterStep_of_still
        ((leaves_middlewareAbortResult _).bind fun _ => (leaves_finishResult _).map _) h

theorem loop_tells (fuel : Nat) (h : AtHead run.told) :
    Tells (loop env fuel) (fun _ r => Sound r.told) run := by
  induction fuel generalizing run with
  | zero => exact Maintains.throw h.sound
  | succ fuel ih =>
    unfold loop
    refine ((iteration_tells fuel h).post fun stopped r hr => ?_).bind
    cases stopped with
    | some result => exact Maintains.pure hr
    | none => exact ih hr

theorem arunOnce_tells (fuel : Nat) (h : AtHead run.told) :
    Tells (arunOnce env fuel) (fun _ r => Sound r.told) run := by
  unfold arunOnce
  refine (leaves_hook _).andThen h.sound fun decision r hr => ?_
  rw [← hr] at h
  by_cases hgo : decision.action = .continue
  · rw [if_pos hgo]
    exact loop_tells fuel h
  · rw [if_neg hgo]
    exact ((leaves_middlewareAbortResult _).bind fun _ => leaves_finishResult _).ends h.sound

end

end LoopM

/-! ### Every run -/

/-- **Every tool call of a turn is answered before the next request.** In each list of messages a run
gives to the model, a turn of the run is followed at once by one result message for each call parsed from
it, in call order, and by no other result of that turn anywhere. -/
theorem answered_of_run (env : Surroundings A T W) (fuel : Nat) (provider : WireFormat)
    (tools : Catalog A) (callerMessages : List T) (world : W) :
    ∀ run ∈ configurations env fuel provider tools callerMessages world,
      ∀ conversation ∈ run.sent, Answered conversation := by
  let start : LoopRun A T W := LoopRun.start provider tools callerMessages world
  have hplain : ∀ entry ∈ start.told.messages, IsPlain entry := by
    intro entry hentry
    obtain ⟨message, -, rfl⟩ := List.mem_map.mp hentry
    exact .inl rfl
  have hstart : AtHead start.told := by
    refine ⟨fun conversation hc => absurd hc List.not_mem_nil, ?_,
      fun entry hentry => (hplain entry hentry).before⟩
    have hanswered := Answered.plain_append answered_nil hplain
    rwa [List.append_nil] at hanswered
  obtain ⟨hvisited, hend⟩ := LoopM.arunOnce_tells fuel hstart
  intro run hrun
  rcases List.mem_append.mp hrun with hmem | hmem
  · exact hvisited run hmem
  · rw [List.mem_singleton.mp hmem]
    unfold runOf
    split at hend
    · exact hend
    · exact hend

def twoCalls : Surroundings Unit Unit Nat where
  config := {}
  middleware := fun _ w => (.ok {}, w)
  reviewFinish := fun _ w => (.ok {}, w)
  sleep := fun _ w => (.ok (), w)
  invoke := fun _ w =>
    (.ok ⟨.ok (if w = 0 then [⟨"read", (), some "a"⟩, ⟨"write", (), some "b"⟩] else []), some (), "", none⟩, w + 1)
  tool := fun (call, _) w => (.ok (.returned ⟨call.toolName, .success, ""⟩), w)
  modelVisible := fun (_, result, _) w => (.ok result, w)
  conversation := fun _ => ([], [])
  contract := none
  continueFinish := fun _ w => (.ok none, w)
  afterToolIteration := fun _ w => (.ok [], w)
  adoptCatalog := fun tools w => (.ok tools, w)
  spendStop := fun _ => none
  timedOut := fun _ => false
  fallback := []
  isModelError := fun _ => false

def plainCatalog : Catalog Unit := ⟨fun _ => false, fun call => call.arguments⟩

def secondRequest : List (Entry Unit Unit) :=
  [⟨.caller, .raw ()⟩, ⟨.turn 1 [⟨"read", (), some "a"⟩, ⟨"write", (), some "b"⟩], .raw ()⟩,
    ⟨.result 1 ⟨"read", (), some "a"⟩, .openaiToolResult "a" "read" ⟨"read", .success, ""⟩⟩,
    ⟨.result 1 ⟨"write", (), some "b"⟩, .openaiToolResult "b" "write" ⟨"write", .success, ""⟩⟩]

theorem answered_of_run_twoCalls :
    secondRequest ∈ (runOf twoCalls 3 .openai plainCatalog [()] 0).final.sent ∧ Answered secondRequest := by
  have hsent : secondRequest ∈ (runOf twoCalls 3 .openai plainCatalog [()] 0).final.sent := by decide +kernel
  refine ⟨hsent, ?_⟩
  exact answered_of_run twoCalls 3 .openai plainCatalog [()] 0 _
    (List.mem_append_right _ (List.mem_singleton.mpr rfl)) _ hsent

end VidbyteSdk.Agents.Loop
