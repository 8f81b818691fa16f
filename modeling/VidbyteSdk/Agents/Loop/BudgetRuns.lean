import VidbyteSdk.Agents.Loop.Budgets

/-!
# Tool budgets over a whole run

Most of the loop is `Quiet`: it leaves the ledger alone. What is left is one lemma for each function
that records a call, counts an iteration, goes on or adopts a catalog, and from them the run lemma: every
configuration is within the budgets.
-/

namespace VidbyteSdk.Agents.Loop

open VidbyteSdk.Lib Prog

variable {A T W : Type}

def LoopRun.ledger (run : LoopRun A T W) : Ledger A where
  tools := run.state.tools
  contexts := run.state.callContexts
  iterationCount := run.state.iterationCount
  resumed := run.resumed
  adopted := run.adopted

namespace LoopM

variable {α β : Type} {env : Surroundings A T W}

/-! ### What leaves the ledger alone -/

abbrev Quiet (m : LoopM A T W α) : Prop := Leaves LoopRun.ledger m

instance : HidesWorld (LoopRun.ledger : LoopRun A T W → Ledger A) := ⟨fun _ _ => rfl⟩

theorem quiet_modifyState {change : LoopState A T → LoopState A T}
    (h : ∀ s, (change s).tools = s.tools ∧ (change s).callContexts = s.callContexts ∧
      (change s).iterationCount = s.iterationCount) :
    Quiet (modifyState change : LoopM A T W Unit) := by
  refine Leaves.modify fun run => ?_
  obtain ⟨htools, hcontexts, hcount⟩ := h run.state
  unfold LoopRun.ledger
  rw [htools, hcontexts, hcount]

theorem quiet_appendMessages (entries : List (Entry A T)) :
    Quiet (appendMessages entries : LoopM A T W Unit) :=
  quiet_modifyState fun _ => ⟨rfl, rfl, rfl⟩

theorem quiet_reject : Quiet (reject : LoopM A T W Unit) := quiet_modifyState fun _ => ⟨rfl, rfl, rfl⟩

theorem quiet_appendToolResultMessage (call : ToolCall A) (result : ToolResult) (truncate : Bool) :
    Quiet (appendToolResultMessage env call result truncate) :=
  (leaves_call _ _).bind fun _ => leaves_getState.bind fun _ => quiet_appendMessages _

theorem quiet_answerToolCall (call : ToolCall A) (state : ToolCallState) (result : ToolResult)
    (afterDecision : MiddlewareDecision) : Quiet (answerToolCall env call state result afterDecision) :=
  Leaves.ite (Leaves.pure _) (quiet_appendToolResultMessage _ _ _)

theorem quiet_answerSkippedToolCalls (skipped : List (ToolCall A)) :
    Quiet (answerSkippedToolCalls env skipped) := by
  unfold answerSkippedToolCalls
  induction skipped with
  | nil => exact Leaves.pure _
  | cons call skipped ih =>
    rw [List.forM_cons]
    exact (quiet_appendToolResultMessage _ _ _).bind fun _ => ih

theorem quiet_continueFinishAttempt : Quiet (continueFinishAttempt env) := by
  refine leaves_getState.bind fun s => (leaves_call _ _).bind fun messages => ?_
  cases messages with
  | none => exact Leaves.pure _
  | some messages => exact (quiet_appendMessages _).bind fun _ => Leaves.pure _

theorem quiet_rejectFinish (call : ToolCall A) (rest : List (ToolCall A)) (feedback : String) :
    Quiet (rejectFinish env call rest feedback) :=
  quiet_reject.bind fun _ => (quiet_appendToolResultMessage _ _ _).bind fun _ =>
    (quiet_answerSkippedToolCalls _).bind fun _ => Leaves.pure _

theorem quiet_reviewFinishAttempt (call : ToolCall A) (result : ToolResult) (rest : List (ToolCall A)) :
    Quiet (reviewFinishAttempt env call result rest) := by
  refine (quiet_appendToolResultMessage _ _ _).bind fun _ => (quiet_answerSkippedToolCalls _).bind
    fun _ => leaves_getState.bind fun s => (leaves_call _ _).bind fun review => ?_
  cases review.action with
  | stop => exact (leaves_finishWith _ _).map _
  | «continue» => exact (quiet_appendMessages _).bind fun _ => Leaves.pure _
  | accept =>
    refine quiet_continueFinishAttempt.bind fun continued => ?_
    cases continued with
    | true => exact Leaves.pure _
    | false => exact (leaves_finishWith _ _).map _

theorem quiet_finishToolCall (call : ToolCall A) (result : ToolResult) (rest : List (ToolCall A)) :
    Quiet (finishToolCall env call result rest) := by
  refine leaves_afterIteration.bind fun stopped => ?_
  cases stopped with
  | some result => exact Leaves.pure _
  | none =>
    refine (leaves_contractVerdict _).bind fun verdict => ?_
    cases verdict with
    | exhausted => exact (leaves_finishWith _ _).map _
    | unmet feedback => exact quiet_rejectFinish _ _ _
    | met => exact quiet_reviewFinishAttempt _ _ _

theorem quiet_appendTurn (reply : ModelReply A T) (calls : List (ToolCall A)) :
    Quiet (appendTurn reply calls : LoopM A T W Unit) := by
  refine leaves_getState.bind fun s => ?_
  cases reply.assistantTurn with
  | none => exact Leaves.pure _
  | some turn => exact quiet_appendMessages _

theorem quiet_reviewFinalAnswer (text : String) : Quiet (reviewFinalAnswer env text) := by
  refine leaves_getState.bind fun s => (leaves_call _ _).bind fun review => ?_
  cases review.action with
  | stop => exact (leaves_finishWith _ _).map _
  | «continue» => exact (quiet_appendMessages _).bind fun _ => leaves_afterIteration
  | accept =>
    refine leaves_afterIteration.bind fun stopped => ?_
    cases stopped with
    | some result => exact Leaves.pure _
    | none =>
      refine quiet_continueFinishAttempt.bind fun continued => ?_
      cases continued with
      | true => exact (quiet_appendMessages _).bind fun _ => Leaves.pure _
      | false => exact (leaves_finishWith _ _).map _

theorem quiet_finalAnswer (text : String) : Quiet (finalAnswer env text) := by
  refine (leaves_contractVerdict _).bind fun verdict => ?_
  cases verdict with
  | exhausted => exact (leaves_finishWith _ _).map _
  | unmet feedback =>
    exact quiet_reject.bind fun _ => (quiet_appendMessages _).bind fun _ => leaves_afterIteration
  | met => exact quiet_reviewFinalAnswer text

theorem quiet_answerIteration (text : String) : Quiet (answerIteration env text) := by
  refine leaves_spendCapStop.bind fun stopped => ?_
  cases stopped with
  | some result => exact (leaves_finishResult _).map _
  | none =>
    refine leaves_getState.bind fun s => ?_
    by_cases htokens : tokensReached env.config.maxTokens s.tokensUsed
    · rw [if_pos htokens]
      exact (leaves_finishWith _ _).map _
    · rw [if_neg htokens]
      exact quiet_finalAnswer text

theorem quiet_fallbackTransition (failure : LoopFailure) : Quiet (fallbackTransition env failure) := by
  cases failure with
  | outOfFuel => exact Leaves.throw _
  | raised raised =>
    refine leaves_getState.bind fun s => ?_
    cases fallbackAdvance env raised s.fallbackIndex with
    | none => exact Leaves.throw _
    | some index => exact quiet_modifyState fun _ => ⟨rfl, rfl, rfl⟩

/-! ### Within the budgets -/

structure Working (config : RuntimeConfig A) (marks : String → Bool) (l : Ledger A) : Prop
    extends Proceeding config marks l where
  pos : 0 < l.iterationCount

/-- Wherever the program passes and ends, the run is within its budgets; a normal end satisfies `Q`. -/
abbrev Upholds (env : Surroundings A T W) (marks : String → Bool) (m : LoopM A T W α)
    (Q : α → LoopRun A T W → Prop) (run : LoopRun A T W) : Prop :=
  Maintains (fun r => Budgeted env.config marks r.ledger) m Q run

def afterStep (config : RuntimeConfig A) (marks : String → Bool) : Option α → LoopRun A T W → Prop
  | none, run => Proceeding config marks run.ledger
  | some _, run => Budgeted config marks run.ledger

def afterCall (config : RuntimeConfig A) (marks : String → Bool) : α ⊕ β → LoopRun A T W → Prop
  | .inl _, run => Budgeted config marks run.ledger
  | .inr _, run => Working config marks run.ledger

def afterTurn (config : RuntimeConfig A) (marks : String → Bool) : TurnEnd A → LoopRun A T W → Prop
  | .finished _, run => Budgeted config marks run.ledger
  | .refused, run | .worked, run => Working config marks run.ledger

section

variable {marks : String → Bool} {run : LoopRun A T W} {m : LoopM A T W α} {f : α → LoopM A T W β}
  {Q : α → LoopRun A T W → Prop} {R : β → LoopRun A T W → Prop}

theorem Working.resume {config : RuntimeConfig A} {l : Ledger A} (h : Working config marks l) :
    Working config marks { l with resumed := l.resumed ++ [l.contexts] } :=
  ⟨h.toProceeding.resume, h.pos⟩

theorem afterStep_of_quiet {n : LoopM A T W (Option α)} (hn : Quiet n)
    (h : Proceeding env.config marks run.ledger) :
    Upholds env marks n (afterStep env.config marks) run := by
  refine (hn.maintains h.toBudgeted).post fun x r hr => ?_
  rw [← hr] at h
  cases x with
  | none => exact h
  | some a => exact h.toBudgeted

end

/-! ### Tool calls -/

section

variable {marks : String → Bool} {run : LoopRun A T W}

theorem resume_upholds (h : Proceeding env.config marks run.ledger) :
    Upholds env marks resume (fun _ r => r.ledger =
      { run.ledger with resumed := run.ledger.resumed ++ [run.ledger.contexts] }) run :=
  (wp_modify _).mpr ⟨h.resume.toBudgeted, rfl⟩

theorem appendContext_upholds {context : ToolCallContext A} (h : Budgeted env.config marks run.ledger)
    (hcontext : Settled env.config run.ledger context) :
    Upholds env marks (appendContext context) (fun _ r => r.ledger =
      { run.ledger with contexts := run.ledger.contexts ++ [context] }) run :=
  (wp_modifyState _).mpr ⟨h.concat hcontext, rfl⟩

variable {call : ToolCall A}

theorem applyToolDenial_upholds (reason : DenialReason)
    (h : Working env.config marks run.ledger)
    (hinternal : toolNameIsInternal run.ledger.tools call.toolName = false)
    (hbelow : Below env.config.callLimit
      (nonInternalToolContexts run.state.tools run.state.callContexts).length) :
    Upholds env marks (applyToolDenial env call reason) (afterCall env.config marks) run := by
  unfold applyToolDenial
  by_cases habort : env.config.toolSettings.any (·.abortsOnDeny)
  · rw [if_pos habort]
    exact Maintains.map _ ((leaves_stoppedResult _ _).ends h.toBudgeted)
  · rw [if_neg habort]
    apply maintains_getState
    let result := ToolResult.error call.toolName
      s!"Tool denied by tool settings: {reason.value}"
    let context := buildToolCallContext call .denied result run.state.iterationCount false
    have hcontext : Settled env.config run.ledger context :=
      ⟨h.pos, rfl, hinternal.symm, fun _ => hbelow, fun _ hstate => absurd rfl hstate⟩
    refine ((appendContext_upholds h.toBudgeted hcontext).post fun _ r hr => ?_).bind
    have hnext : Working env.config marks r.ledger := by
      rw [hr]
      exact ⟨h.toProceeding.concat hcontext (by simp [context, buildToolCallContext]), h.pos⟩
    refine (quiet_appendToolResultMessage _ _ _).andThen hnext.toBudgeted fun _ r' hr' => ?_
    apply Maintains.pure
    rw [← hr'] at hnext
    exact hnext

def mayRun (config : RuntimeConfig A) (call : ToolCall A) (toolIsInternal : Bool) (l : Ledger A) :
    Prop :=
  toolIsInternal = false → enforcement config l.tools call l.contexts l.iterationCount = .allow

variable {toolIsInternal : Bool}

theorem enforceToolSettings_upholds (h : Working env.config marks run.ledger)
    (hinternal : toolIsInternal = toolNameIsInternal run.ledger.tools call.toolName) :
    Upholds env marks (enforceToolSettings env call toolIsInternal) (fun outcome r =>
      match outcome with
      | some outcome => afterCall env.config marks outcome r
      | none => r.ledger = run.ledger ∧ mayRun env.config call toolIsInternal r.ledger) run := by
  unfold enforceToolSettings
  refine leaves_spendCapStop.andThen h.toBudgeted fun stopped r hr => ?_
  rw [← hr] at h hinternal
  cases stopped with
  | some result => exact Maintains.pure h.toBudgeted
  | none =>
    by_cases htool : toolIsInternal = true
    · rw [if_pos htool]
      exact Maintains.pure ⟨hr, fun hfalse => absurd htool (by simp [hfalse])⟩
    · rw [if_neg htool]
      rw [Bool.not_eq_true] at htool
      apply maintains_getState
      cases henforcement : enforcement env.config r.state.tools call r.state.callContexts
          r.state.iterationCount with
      | stop stop => exact Maintains.map _ ((leaves_stoppedResult _ _).ends h.toBudgeted)
      | deny reason =>
        refine Maintains.map _ (applyToolDenial_upholds reason h (by rw [← hinternal, htool]) ?_)
        exact below_callLimit_of_enforcement henforcement (by simp)
      | allow => exact Maintains.pure ⟨hr, fun _ => henforcement⟩

theorem settled_of_mayRun (h : Working env.config marks run.ledger)
    (hinternal : toolIsInternal = toolNameIsInternal run.ledger.tools call.toolName)
    (hmay : mayRun env.config call toolIsInternal run.ledger) (state : ToolCallState) (result : ToolResult) :
    Settled env.config run.ledger
      (buildToolCallContext call state result run.state.iterationCount toolIsInternal) where
  pos := h.pos
  iterationCount_eq := rfl
  internal_eq := hinternal
  below := fun hfalse => below_callLimit_of_enforcement (hmay hfalse) (by simp)
  admitted := fun hfalse _ _ hsettings =>
    let hadmitted := admitted_of_enforcement (hmay hfalse) hsettings
    ⟨hadmitted.1, hadmitted.2⟩

theorem recordToolCall_upholds (h : Working env.config marks run.ledger)
    (hinternal : toolIsInternal = toolNameIsInternal run.ledger.tools call.toolName)
    (hmay : mayRun env.config call toolIsInternal run.ledger) (state : ToolCallState) (result : ToolResult)
    (afterDecision : MiddlewareDecision) :
    Upholds env marks (recordToolCall env call toolIsInternal state result afterDecision)
      (fun context r => Settled env.config run.ledger context ∧ context.internal = toolIsInternal ∧
        r.ledger = { run.ledger with contexts := run.ledger.contexts ++ [context] }) run := by
  unfold recordToolCall
  apply maintains_getState
  have hsettled := settled_of_mayRun h hinternal hmay state result
  refine (quiet_answerToolCall _ _ _ _).andThen h.toBudgeted fun _ r hr => ?_
  rw [← hr] at hsettled
  refine ((appendContext_upholds (hr ▸ h.toBudgeted) hsettled).post fun _ r' hr' => ?_).bind
  rw [hr] at hr' hsettled
  exact Maintains.pure ⟨hsettled, rfl, hr'⟩

theorem settleToolCall_upholds (decision : MiddlewareDecision)
    (fuel : Nat) (h : Working env.config marks run.ledger)
    (hinternal : toolIsInternal = toolNameIsInternal run.ledger.tools call.toolName)
    (hmay : mayRun env.config call toolIsInternal run.ledger) :
    Upholds env marks (settleToolCall env call toolIsInternal decision fuel)
      (afterCall env.config marks) run := by
  unfold settleToolCall
  refine (leaves_runToolAttempts _ _ _).andThen h.toBudgeted fun (state, result, afterDecision) r hr => ?_
  rw [← hr] at h hinternal hmay
  refine ((recordToolCall_upholds h hinternal hmay state result afterDecision).post
    fun context r' ⟨hsettled, hmark, hr'⟩ => ?_).bind
  have hbudgeted : Budgeted env.config marks r'.ledger := by
    rw [hr']
    exact h.toBudgeted.concat hsettled
  by_cases habort : afterDecision.action = .abortRun
  · rw [if_pos habort]
    exact Maintains.map _ ((leaves_middlewareAbortResult _).ends hbudgeted)
  · rw [if_neg habort]
    apply maintains_getState
    cases hstop : failureStop env.config context toolIsInternal r'.state.callContexts with
    | some stop => exact Maintains.map _ ((leaves_stoppedResult _ _).ends hbudgeted)
    | none =>
      apply Maintains.pure
      show Working env.config marks r'.ledger
      by_cases hfailed : context.internal = false ∧ context.state = .failed
      · -- a failed developer call: the error budgets were checked on the log that holds it
        rw [hmark] at hfailed
        have hbelow := below_of_failureStop hstop hfailed.1 hfailed.2
        refine ⟨⟨hbudgeted, hbelow⟩, ?_⟩
        rw [hr']
        exact h.pos
      · rw [hr']
        exact ⟨h.toProceeding.concat hsettled (by simpa using hfailed), h.pos⟩

theorem processToolCall_upholds (fuel : Nat) (rawCall : ToolCall A)
    (h : Working env.config marks run.ledger) :
    Upholds env marks (processToolCall env fuel rawCall) (afterCall env.config marks) run := by
  unfold processToolCall
  refine ((resume_upholds h.toProceeding).post fun _ r hr => ?_).bind
  have hnext : Working env.config marks r.ledger := by
    rw [hr]
    exact h.resume
  apply maintains_getState
  refine ((enforceToolSettings_upholds hnext rfl).post fun outcome r' houtcome => ?_).bind
  cases outcome with
  | some outcome => exact Maintains.pure houtcome
  | none =>
    obtain ⟨hr', hmay⟩ := houtcome
    rw [← hr'] at hnext
    refine (leaves_hook _).andThen hnext.toBudgeted fun decision r'' hr'' => ?_
    rw [← hr''] at hnext hmay
    by_cases habort : decision.action = .abortRun
    · rw [if_pos habort]
      exact Maintains.map _ ((leaves_middlewareAbortResult _).ends hnext.toBudgeted)
    · rw [if_neg habort]
      refine settleToolCall_upholds decision fuel hnext ?_ hmay
      rw [hr'', hr']
      rfl

theorem processToolCalls_upholds (fuel : Nat) (calls : List (ToolCall A))
    (h : Working env.config marks run.ledger) :
    Upholds env marks (processToolCalls env fuel calls) (afterTurn env.config marks) run := by
  induction calls generalizing run with
  | nil => exact Maintains.pure h
  | cons call rest ih =>
    unfold processToolCalls
    refine ((processToolCall_upholds fuel call h).post fun outcome r houtcome => ?_).bind
    cases outcome with
    | inl result => exact Maintains.map _ ((leaves_finishResult result).ends houtcome)
    | inr result =>
      by_cases hfinish : isFinish call result
      · simp only [if_pos hfinish]
        refine ((quiet_finishToolCall call result rest).maintains houtcome.toBudgeted).post
          fun turnEnd r' hr' => ?_
        have hnext : Working env.config marks r'.ledger := hr' ▸ houtcome
        cases turnEnd with
        | finished result => exact hnext.toBudgeted
        | refused => exact hnext
        | worked => exact hnext
      · simp only [if_neg hfinish]
        exact ih houtcome

/-! ### Iterations -/

theorem adoptAgentCatalog_upholds (h : Proceeding env.config marks run.ledger) :
    Upholds env marks (adoptAgentCatalog env) (fun _ r => Proceeding env.config marks r.ledger) run := by
  unfold adoptAgentCatalog
  apply maintains_getState
  refine (leaves_call _ _).andThen h.toBudgeted fun tools r hr => ?_
  have hnext := h.adopt tools
  rw [← hr] at hnext
  exact (wp_modify _).mpr ⟨hnext.toBudgeted, hnext⟩

theorem finishToolIteration_upholds (h : Proceeding env.config marks run.ledger) :
    Upholds env marks (finishToolIteration env) (afterStep env.config marks) run := by
  unfold finishToolIteration
  refine leaves_afterIteration.andThen h.toBudgeted fun stopped r hr => ?_
  rw [← hr] at h
  cases stopped with
  | some result => exact Maintains.pure h.toBudgeted
  | none =>
    refine leaves_spendCapStop.andThen h.toBudgeted fun stopped r hr => ?_
    rw [← hr] at h
    cases stopped with
    | some result => exact Maintains.map _ ((leaves_finishResult _).ends h.toBudgeted)
    | none =>
      apply maintains_getState
      refine (leaves_call _ _).andThen h.toBudgeted fun messages r hr => ?_
      rw [← hr] at h
      refine (quiet_appendMessages _).andThen h.toBudgeted fun _ r hr => ?_
      rw [← hr] at h
      refine ((adoptAgentCatalog_upholds h).post fun _ r hadopted => ?_).bind
      exact Maintains.pure hadopted

theorem toolIteration_upholds (fuel : Nat) (reply : ModelReply A T) (calls : List (ToolCall A))
    (h : Working env.config marks run.ledger) :
    Upholds env marks (toolIteration env fuel reply calls) (afterStep env.config marks) run := by
  unfold toolIteration
  refine (quiet_appendTurn _ _).andThen h.toBudgeted fun _ r hr => ?_
  rw [← hr] at h
  refine ((processToolCalls_upholds fuel calls h).post fun turnEnd r' hturn => ?_).bind
  cases turnEnd with
  | finished result => exact Maintains.pure hturn
  | refused =>
    refine ((adoptAgentCatalog_upholds hturn.toProceeding).post fun _ r hadopted => ?_).bind
    exact Maintains.pure hadopted
  | worked => exact finishToolIteration_upholds hturn.toProceeding

/-! ### Requests -/

theorem request_keeps_proceeding (conversation : List (Entry A T)) :
    Keeps (fun r => Proceeding env.config marks r.ledger) (request env conversation) := by
  have hresume : Keeps (fun r : LoopRun A T W => Proceeding env.config marks r.ledger)
      (resume : LoopM A T W Unit) := Keeps.modify fun _ h => h.resume
  have hsent : Keeps (fun r : LoopRun A T W => Proceeding env.config marks r.ledger)
      (Prog.modify fun run => { run with sent := run.sent ++ [conversation] } : LoopM A T W Unit) :=
    Keeps.modify fun _ h => h
  exact hsent.bind fun _ => hresume.bind fun _ => (leaves_attempt _ _).keeps

theorem requestIteration_keeps_proceeding (fuel : Nat) :
    Keeps (fun r => Proceeding env.config marks r.ledger) (requestIteration env fuel) := by
  refine leaves_buildConversationMessages.keeps.bind fun conversation => ?_
  exact Keeps.tryCatch (keeps_invokeWithMiddleware (request_keeps_proceeding _) _).map fun failure =>
    (quiet_fallbackTransition failure).keeps.bind fun _ => Keeps.pure _

theorem requestIteration_upholds (fuel : Nat) (h : Proceeding env.config marks run.ledger) :
    Upholds env marks (requestIteration env fuel)
      (fun _ r => Proceeding env.config marks r.ledger) run :=
  (requestIteration_keeps_proceeding fuel).maintains (fun _ => (·.toBudgeted)) h

/-! ### The loop -/

theorem handleReply_upholds (fuel : Nat) (reply : ModelReply A T)
    (h : Proceeding env.config marks run.ledger) :
    Upholds env marks (handleReply env fuel reply) (afterStep env.config marks) run := by
  unfold handleReply
  have hworking : Working env.config marks { run.ledger with iterationCount := run.ledger.iterationCount + 1 } :=
    ⟨h.count, Nat.succ_pos _⟩
  have hcount : Upholds env marks (countReply reply) (fun _ r => Working env.config marks r.ledger) run :=
    (wp_modifyState _).mpr ⟨hworking.toBudgeted, hworking⟩
  refine (hcount.post fun _ r hr => ?_).bind
  refine (leaves_hook _).andThen hr.toBudgeted fun decision r' hr' => ?_
  rw [← hr'] at hr
  by_cases hgo : decision.action = .continue
  · rw [if_pos hgo]
    rcases reply.toolCalls with raised | _ | ⟨call, calls⟩
    · exact (wp_throw _).mpr hr.toBudgeted
    · exact afterStep_of_quiet (quiet_answerIteration _) hr.toProceeding
    · exact toolIteration_upholds fuel reply (call :: calls) hr
  · rw [if_neg hgo]
    exact afterStep_of_quiet
      ((leaves_middlewareAbortResult _).bind fun _ => (leaves_finishResult _).map _) hr.toProceeding

theorem iteration_upholds (fuel : Nat) (h : Proceeding env.config marks run.ledger) :
    Upholds env marks (iteration env fuel) (afterStep env.config marks) run := by
  unfold iteration
  refine leaves_budgetStop.andThen h.toBudgeted fun stopped r hr => ?_
  rw [← hr] at h
  cases stopped with
  | some result => exact afterStep_of_quiet ((leaves_finishResult _).map _) h
  | none =>
    refine (leaves_hook _).andThen h.toBudgeted fun decision r hr => ?_
    rw [← hr] at h
    by_cases hgo : decision.action = .continue
    · rw [if_pos hgo]
      refine ((requestIteration_upholds fuel h).post fun outcome r hr => ?_).bind
      rcases outcome with _ | result | reply
      · exact Maintains.pure hr
      · exact afterStep_of_quiet ((leaves_finishResult _).map _) hr
      · exact handleReply_upholds fuel reply hr
    · rw [if_neg hgo]
      exact afterStep_of_quiet ((leaves_middlewareAbortResult _).bind fun _ => (leaves_finishResult _).map _) h

theorem loop_upholds (fuel : Nat) (h : Proceeding env.config marks run.ledger) :
    Upholds env marks (loop env fuel) (fun _ r => Budgeted env.config marks r.ledger) run := by
  induction fuel generalizing run with
  | zero => exact (wp_throw _).mpr h.toBudgeted
  | succ fuel ih =>
    unfold loop
    refine ((iteration_upholds fuel h).post fun stopped r hr => ?_).bind
    cases stopped with
    | some result => exact Maintains.pure hr
    | none => exact ih hr

theorem arunOnce_upholds (fuel : Nat) (h : Proceeding env.config marks run.ledger) :
    Upholds env marks (arunOnce env fuel) (fun _ r => Budgeted env.config marks r.ledger) run := by
  unfold arunOnce
  refine (leaves_hook _).andThen h.toBudgeted fun decision r hr => ?_
  rw [← hr] at h
  by_cases hgo : decision.action = .continue
  · rw [if_pos hgo]
    exact loop_upholds fuel h
  · rw [if_neg hgo]
    exact ((leaves_middlewareAbortResult _).bind fun _ => leaves_finishResult _).ends h.toBudgeted

end

end LoopM

/-! ### Every run -/

section

variable (env : Surroundings A T W) (fuel : Nat) (provider : WireFormat) (tools : Catalog A)
  (callerMessages : List T) (world : W)

theorem budgeted_of_run : ∀ run ∈ configurations env fuel provider tools callerMessages world,
    Budgeted env.config tools.markedInternal run.ledger := by
  let start : LoopRun A T W := LoopRun.start provider tools callerMessages world
  have hstart : Proceeding env.config tools.markedInternal start.ledger := by
    refine ⟨⟨⟨?_, ?_⟩, fun settings _ => WithinBudgets.nil settings, ?_, fun _ => ⟨rfl, ?_, within_zero _⟩⟩,
      fun settings _ => BelowFailures.nil settings⟩
    all_goals intro c hc; cases hc
  obtain ⟨hvisited, hend⟩ := LoopM.arunOnce_upholds fuel hstart
  intro run hrun
  rcases List.mem_append.mp hrun with hmem | hmem
  · exact hvisited run hmem
  · rw [List.mem_singleton.mp hmem]
    unfold runOf
    split at hend
    · exact hend
    · exact hend

/-- **Tool budgets hold in every configuration of a run.** The calls of developer tools respect each
budget of the settings, and wherever the loop went on to a tool call or a model request the failures
were below theirs. While no adopted catalog changes an internal mark, the contexts of developer tools
number at most `max_tool_calls` and `max_calls`. -/
theorem budgets_of_run : ∀ run ∈ configurations env fuel provider tools callerMessages world,
    (∀ settings ∈ env.config.toolSettings, WithinBudgets settings run.state.callContexts) ∧
    (∀ contexts ∈ run.resumed, ∀ settings ∈ env.config.toolSettings, BelowFailures settings contexts) ∧
    ((∀ catalog ∈ run.adopted, catalog.markedInternal = tools.markedInternal) →
      nonInternalToolContexts run.state.tools run.state.callContexts
          = developerContexts run.state.callContexts ∧
        Within env.config.callLimit (developerContexts run.state.callContexts).length) := by
  intro run hrun
  have h := budgeted_of_run env fuel provider tools callerMessages world run hrun
  refine ⟨h.within, h.resumed, fun hmarks => ?_⟩
  obtain ⟨-, hmarked, htotal⟩ := h.total hmarks
  exact ⟨hmarked.nonInternal_eq, htotal⟩

end

/-! ### Two runs past a limit -/

/-- Surroundings without middleware, in which the world counts the model's replies. -/
def scripted (config : RuntimeConfig Unit) (replies : Nat → List String) : Surroundings Unit Unit Nat where
  config := config
  middleware := fun _ w => (.ok {}, w)
  reviewFinish := fun _ w => (.ok {}, w)
  sleep := fun _ w => (.ok (), w)
  invoke := fun _ w =>
    (.ok ⟨.ok ((replies w).map fun name => ⟨name, (), none⟩), some (), "", none⟩, w + 1)
  tool := fun (call, _) w => (.ok (.returned ⟨call.toolName, .success, ""⟩), w)
  modelVisible := fun (_, result, _) w => (.ok result, w)
  conversation := fun _ => ([], [])
  contract := none
  continueFinish := fun _ w => (.ok none, w)
  afterToolIteration := fun _ w => (.ok [], w)
  adoptCatalog := fun tools w => (.ok tools, w)
  spendStop := fun _ => none
  timedOut := fun _ => false
  fallback := []
  isModelError := fun _ => false

def finishesTwice : Surroundings Unit Unit Nat :=
  { scripted { toolSettings := some { maxCallsPerTool := [(isDoneToolName, 1)], fingerprint := fun name _ => name } }
      (fun _ => [isDoneToolName]) with
    contract := some ⟨fun _ w => (.ok (if w = 1 then some "not yet" else none), w), 3⟩ }

def remarksTools : Surroundings Unit Unit Nat :=
  { scripted { maxToolCalls := some 1 } (fun w => if w = 0 then ["search"] else ["write"]) with
    adoptCatalog := fun tools w => (.ok { tools with markedInternal := fun name => name = "search" && w = 1 }, w) }

def noMarks : Catalog Unit := ⟨fun _ => false, fun call => call.arguments⟩

def searchesTwice : Surroundings Unit Unit Nat :=
  scripted
    { maxToolCalls := some 3
      toolSettings := some { maxCallsPerTool := [("search", 2)], fingerprint := fun name _ => name } }
    (fun w => if w < 2 then ["search"] else [])

theorem budgets_of_run_searchesTwice :
    executedCount (runOf searchesTwice 4 .openai noMarks [] 0).final.state.callContexts "search" = 2 ∧
      (∀ settings ∈ searchesTwice.config.toolSettings,
        WithinBudgets settings (runOf searchesTwice 4 .openai noMarks [] 0).final.state.callContexts) ∧
      Within searchesTwice.config.callLimit
        (developerContexts (runOf searchesTwice 4 .openai noMarks [] 0).final.state.callContexts).length := by
  have hadopted : (runOf searchesTwice 4 .openai noMarks [] 0).final.adopted = [noMarks, noMarks] := rfl
  obtain ⟨hwithin, -, htotal⟩ := budgets_of_run searchesTwice 4 .openai noMarks [] 0 _
    (List.mem_append_right _ (List.mem_singleton.mpr rfl))
  refine ⟨by decide +kernel, hwithin, (htotal ?_).2⟩
  rw [hadopted]
  intro catalog hcatalog
  simp only [List.mem_cons, List.not_mem_nil, or_false, or_self] at hcatalog
  rw [hcatalog]

/-- Internal tools skip the limits per tool, and a catalog that marks a tool anew changes the count of
`max_tool_calls`. -/
theorem limits_exceeded :
    (¬ ∀ run ∈ configurations finishesTwice 4 .openai noMarks [] 0,
      ∀ settings ∈ finishesTwice.config.toolSettings, ∀ toolName,
        Within (settings.maxCallsPerTool.lookup toolName)
          (executedCount run.state.callContexts toolName)) ∧
    ¬ ∀ run ∈ configurations remarksTools 4 .openai noMarks [] 0,
      Within remarksTools.config.callLimit
        (nonInternalToolContexts run.state.tools run.state.callContexts).length := by
  constructor
  · intro h
    have hlast := h (runOf finishesTwice 4 .openai noMarks [] 0).final
      (List.mem_append_right _ (List.mem_singleton.mpr rfl)) _ rfl isDoneToolName 1 (by decide +kernel)
    have hcount : executedCount (runOf finishesTwice 4 .openai noMarks [] 0).final.state.callContexts
        isDoneToolName = 2 := by decide +kernel
    rw [hcount] at hlast
    exact absurd hlast (by decide)
  · intro h
    have hlast := h (runOf remarksTools 4 .openai noMarks [] 0).final
      (List.mem_append_right _ (List.mem_singleton.mpr rfl)) 1 (by decide +kernel)
    have hcount : (nonInternalToolContexts (runOf remarksTools 4 .openai noMarks [] 0).final.state.tools
        (runOf remarksTools 4 .openai noMarks [] 0).final.state.callContexts).length = 2 := by
      decide +kernel
    rw [hcount] at hlast
    exact absurd hlast (by decide)

end VidbyteSdk.Agents.Loop
