import VidbyteSdk.Agents.Multi.TeamTrace
import VidbyteSdk.Lib.Triples

/-!
# Runs of a team

Every part of the controller takes a run from `Calm` to `Calm`, through `Opened` where it works on an
attempt, whichever way its boundaries behave. What follows for a whole run is `run_bounded_and_closed`.
-/

namespace VidbyteSdk.Agents.Multi

open VidbyteSdk.Lib Prog

variable {V W A Q R α β : Type}

/-! ### What leaves the core alone -/

abbrev coreView : MultiAgentRunState V W A → RunCore V := MultiAgentRunState.core

section Quiet

theorem leaves_callOut (boundary : Boundary W α β) (a : α) :
    Leaves coreView (RunM.callOut boundary a : RunM V W A β) :=
  Leaves.get.bind fun _ => (Leaves.modify (by exact fun _ => rfl)).bind fun _ => Leaves.ofExcept _

theorem leaves_check (reading : Except TaskLedgerError α) :
    Leaves coreView (RunM.check reading : RunM V W A α) :=
  Leaves.ofExcept _

theorem leaves_context : Leaves coreView (context : RunM V W A (OrchestrationContext V)) :=
  Leaves.get.bind fun _ => Leaves.pure _

theorem leaves_call (phase : Boundary W α β) (a : α) :
    Leaves coreView (call phase a : RunM V W A β) :=
  (leaves_callOut phase a).tryCatch fun _ => Leaves.throw _

theorem leaves_callBoundary (label : String) (boundary : Boundary W α β) (a : α) :
    Leaves coreView (callBoundary label boundary a : RunM V W A β) :=
  (leaves_callOut boundary a).tryCatch fun _ => Leaves.throw _

theorem leaves_rememberCandidate (decision : OrchestratorDecision V) :
    Leaves coreView (rememberCandidate decision : RunM V W A Unit) := by
  unfold rememberCandidate
  cases decision.finalAnswer with
  | none => exact Leaves.pure _
  | some answer => exact (Leaves.pure _).ite (Leaves.modify fun _ => rfl)

theorem leaves_updateStalls (decision : OrchestratorDecision V) (progressed : Bool) :
    Leaves coreView (updateStalls decision progressed : RunM V W A Unit) := by
  apply Leaves.modify
  intro state
  split <;> rfl

theorem leaves_errorType {operation : RunM V W A Unit} (h : Leaves coreView operation) :
    Leaves coreView (errorType operation) :=
  (h.map _).tryCatch fun _ => Leaves.pure _

variable (team : MultiAgent V W A Q R)

theorem leaves_completionCheckPasses (decision : OrchestratorDecision V) :
    Leaves coreView (completionCheckPasses team decision) := by
  unfold completionCheckPasses
  cases team.completionCheck with
  | none => exact Leaves.pure _
  | some completionCheck => exact leaves_context.bind fun _ => leaves_callOut _ _

theorem leaves_approveDispatch (transfer : AgentTransfer V W Q R) (dispatch : TeamDispatch V)
    (ledger : TaskLedger V) :
    Leaves coreView
      (approveDispatch transfer dispatch ledger : RunM V W A (Option (TaskBlocker V))) := by
  unfold approveDispatch
  cases transfer.beforeDispatch with
  | none => exact Leaves.pure _
  | some beforeDispatch => exact leaves_callBoundary _ _ _

theorem leaves_buildDispatch (decision : OrchestratorDecision V) (taskId owner instruction : String) :
    Leaves coreView (buildDispatch decision taskId owner instruction : RunM V W A (TeamDispatch V)) :=
  Leaves.get.bind fun _ => (leaves_check _).bind fun _ => (Leaves.throwIf _ _).bind fun _ =>
    (Leaves.throwIf _ _).bind fun _ => Leaves.pure _

theorem leaves_validateLimitReturn (stopReason : MultiAgentStopReason) :
    Leaves coreView (validateLimitReturn team stopReason) :=
  Leaves.throwIf _ _

variable [DecidableEq A]

theorem leaves_forkWorker (binding : AgentBinding V W A Q R) : Leaves coreView (forkWorker binding) :=
  ((leaves_callOut _ _).tryCatch fun _ => Leaves.throw _).bind fun _ =>
    (Leaves.throwIf _ _).bind fun _ => Leaves.pure _

theorem leaves_installWorker (binding : AgentBinding V W A Q R) :
    Leaves coreView (installWorker binding) :=
  (leaves_forkWorker binding).bind fun _ => Leaves.get.bind fun _ =>
    (Leaves.throwIf _ _).bind fun _ => Leaves.modify fun _ => rfl

theorem leaves_resetWorker (binding : AgentBinding V W A Q R) :
    Leaves coreView (resetWorker binding) := by
  refine Leaves.get.bind fun state => ?_
  cases state.workers.find? fun entry => entry.1 = binding.owner with
  | none => exact Leaves.throw _
  | some entry =>
    refine (leaves_errorType (leaves_callOut _ _)).bind fun failed => ?_
    cases failed with
    | some typeName => exact Leaves.pure _
    | none =>
      exact (Leaves.modify (by exact fun _ => rfl)).bind fun _ =>
        leaves_errorType (leaves_installWorker binding)

theorem leaves_resetErrors (bindings : List (AgentBinding V W A Q R)) :
    Leaves coreView (resetErrors bindings) := by
  induction bindings with
  | nil => exact Leaves.pure _
  | cons binding bindings ih =>
    refine Leaves.bind ?_ fun _ => ih.bind fun _ => Leaves.pure _
    exact (leaves_resetWorker binding).ite (Leaves.pure _)

theorem leaves_resetWorkers : Leaves coreView (resetWorkers team) :=
  (leaves_resetErrors _).bind fun _ => Leaves.throwIf _ _

theorem leaves_initializeRun : Leaves coreView (initializeRun team) :=
  (leaves_callOut _ _).bind fun _ => Leaves.forM _ leaves_installWorker

end Quiet

/-! ### Commits -/

section Commits

variable {P : RunCore V → Prop} {Q' : α → RunCore V → Prop} {E : RunCore V → Prop}

theorem wp_commit (call : LedgerCall V) (method : LedgerM V α) {I : MultiAgentRunState V W A → Prop}
    {post : α → MultiAgentRunState V W A → Prop}
    {raised : RunError → MultiAgentRunState V W A → Prop} {state : MultiAgentRunState V W A}
    (hI : ∀ state, I state) :
    wp I (RunM.commit call method) post raised state ↔
      wp (fun _ => True) method
        (fun a ledger => post a
          { state with
            ledger := ledger
            trace := state.trace ++ [.accepted state.rounds call] })
        (fun error ledger => raised (.ledger error) { state with ledger := ledger }) state.ledger := by
  simp [RunM.commit, RunM.onLedger, RunM.record, hI]

/-- An accepted call extends the trace; a refused one leaves the core to `E`. -/
theorem triple_commit (team : MultiAgent V W A Q R) {call : LedgerCall V} {method : LedgerM V α}
    (post : RunCore V → α → TaskLedger V → Prop)
    (hfinal : ∀ ledger, (method ledger).final = (call.run team.same ledger).final)
    (hmethod : ∀ core, P core → wp (fun _ => True) method (post core)
      (fun _ ledger => E { core with ledger := ledger }) core.ledger)
    (haccept : ∀ core, P core → ∀ a ledger, post core a ledger →
      ledger = (call.run team.same core.ledger).final → Q' a (core.accept call ledger)) :
    Triple coreView P (RunM.commit call method : RunM V W A α) Q' E := by
  intro state hP
  rw [wp_commit call method fun _ => trivial]
  refine wp_post (wp_final (hmethod _ hP)) ?_ fun _ _ h => h
  rintro a ledger ⟨hpost, hend⟩
  exact haccept _ hP a ledger hpost (hend.trans (hfinal _))

end Commits

/-! ### Events -/

theorem emitEvent_triple (P E : RunCore V → Prop)
    (callback : Boundary W (LedgerEvent × TaskLedger V) Unit) (event : LedgerEvent) :
    Triple coreView P (emitEvent (A := A) callback event) (fun _ => P) E := by
  refine Triple.bind (Triple.modify (Q := fun _ => P) fun _ hP => hP) fun _ => ?_
  refine Triple.get_bind fun state hP => ?_
  refine Triple.conseq (Triple.tryCatch (Triple.of_leaves (leaves_callOut _ _)) fun error =>
    Triple.modify fun _ h => h) (fun _ => id) ?_ fun _ => id
  rintro _ _ rfl
  exact hP

theorem afterCommit_triple (team : MultiAgent V W A Q R) (P E : RunCore V → Prop) :
    Triple coreView P (afterCommit team) (fun _ => P) E := by
  refine Triple.get_bind fun state hP => ?_
  refine Triple.conseq (P := P) (Q := fun _ => P) (E := E) ?_ ?_ (fun _ _ => id) fun _ => id
  · cases team.onEvent with
    | none => exact Triple.pure fun _ => id
    | some callback =>
      cases state.ledger.events.getLast? with
      | none => exact Triple.pure fun _ => id
      | some event =>
        exact Triple.ite (fun _ => emitEvent_triple P E callback event) fun _ =>
          Triple.pure fun _ => id
  · rintro _ rfl
    exact hP

/-! ### One attempt -/

section Attempt

variable {team : MultiAgent V W A Q R} {n budget : ℕ} {dispatch : TeamDispatch V}

theorem startAttempt_triple (decision : OrchestratorDecision V) (taskId owner instruction : String) :
    Triple coreView (Calm team n budget) (startAttempt team decision taskId owner instruction)
      (fun dispatch => Opened team n budget dispatch.toAgentDispatch) (Calm team n budget) := by
  refine (Triple.of_leaves (leaves_buildDispatch _ _ _ _)).bind fun dispatch => ?_
  have hcommit : Triple coreView (Calm team n budget)
      (RunM.commit (.startTask dispatch.toAgentDispatch)
        (TaskLedger.startTask dispatch.toAgentDispatch) : RunM V W A Unit)
      (fun _ => Opened team n budget dispatch.toAgentDispatch) (Calm team n budget) := by
    refine triple_commit team (fun _ _ ledger => ledger.OpenAttempt dispatch.taskId dispatch.owner)
      (fun _ => rfl) (fun core hcalm => ?_) ?_
    · refine wp_post (TaskLedger.startTask_opens hcalm.idle _) (fun _ _ => id) ?_
      rintro _ _ rfl
      exact hcalm
    · intro core hcalm _ ledger hopen hfinal
      exact hcalm.open hfinal hopen
  exact hcommit.bind fun _ => (afterCommit_triple team _ _).bind fun _ => Triple.pure fun _ => id

theorem invokeOnce_triple (request : Q) (invocation : ℕ) :
    Triple coreView (Opened team n budget dispatch.toAgentDispatch)
      (invokeOnce team dispatch request invocation)
      (fun _ => Opened team n (budget + 1) dispatch.toAgentDispatch)
      (Opened team n (budget + 1) dispatch.toAgentDispatch) := by
  refine Triple.get_bind fun state hopened => ?_
  cases state.workers.find? fun entry => entry.1 = dispatch.owner with
  | none =>
    refine Triple.throw ?_
    rintro _ rfl
    exact hopened.mono (Nat.le_succ budget)
  | some entry =>
    refine Triple.bind (Q := fun _ => Opened team n (budget + 1) dispatch.toAgentDispatch)
      (Triple.modify ?_) fun _ => Triple.of_leaves (leaves_callOut _ _)
    intro state' hstate
    have hcore : (coreView state').record (.invoked state.rounds dispatch.owner)
        = (coreView state).record (.invoked (coreView state).rounds dispatch.owner) := by
      rw [hstate]
      rfl
    show Opened team _ _ _ ((coreView state').record _)
    rw [hcore]
    exact hopened.invoke dispatch.owner

theorem invokeWithRetries_triple (request : Q) (left invocation : ℕ) :
    Triple coreView (Opened team n budget dispatch.toAgentDispatch)
      (invokeWithRetries team dispatch request left invocation)
      (fun _ => Opened team n (budget + left) dispatch.toAgentDispatch)
      (Opened team n (budget + left) dispatch.toAgentDispatch) := by
  induction left generalizing budget invocation with
  | zero => exact Triple.throw fun _ => id
  | succ left ih =>
    have hone : Triple coreView (Opened team n budget dispatch.toAgentDispatch)
        (invokeOnce team dispatch request invocation)
        (fun _ => Opened team n (budget + 1) dispatch.toAgentDispatch)
        (Opened team n (budget + 1) dispatch.toAgentDispatch) := invokeOnce_triple request invocation
    have hle : budget + 1 ≤ budget + (left + 1) := by omega
    refine Triple.tryCatch (hone.conseq (fun _ => id) (fun _ _ h => h.mono hle) fun _ => id)
      fun _ => ?_
    rw [show budget + (left + 1) = budget + 1 + left by omega]
    exact ih (invocation + 1)

theorem validateReportIdentity_triple (P : RunCore V → Prop) (report : AgentReport V) :
    Triple coreView P (validateReportIdentity report dispatch : RunM V W A Unit)
      (fun _ core => report.taskId = dispatch.taskId ∧ P core) P := by
  refine Triple.ite (fun _ => Triple.throw fun _ => id) fun h => Triple.pure fun _ hP => ?_
  exact ⟨not_not.mp h, hP⟩

theorem parseReport_triple (P : RunCore V → Prop) (transfer : AgentTransfer V W Q R) (reply : R)
    (ledger : TaskLedger V) :
    Triple coreView P (parseReport transfer reply dispatch ledger : RunM V W A (AgentReport V))
      (fun report core => report.taskId = dispatch.taskId ∧ P core) P :=
  (Triple.of_leaves (leaves_callBoundary _ _ _)).bind fun report =>
    (validateReportIdentity_triple P report).bind fun _ => Triple.pure fun _ => id

theorem validateReport_triple (P : RunCore V → Prop) (transfer : AgentTransfer V W Q R)
    {report : AgentReport V} (hreport : report.taskId = dispatch.taskId) (ledger : TaskLedger V) :
    Triple coreView P (validateReport transfer report dispatch ledger : RunM V W A (AgentReport V))
      (fun report core => report.taskId = dispatch.taskId ∧ P core) P := by
  unfold validateReport
  cases transfer.reportValidator with
  | none => exact Triple.pure fun _ hP => ⟨hreport, hP⟩
  | some reportValidator =>
    exact (Triple.of_leaves (leaves_callBoundary _ _ _)).bind fun report =>
      (validateReportIdentity_triple P report).bind fun _ => Triple.pure fun _ => id

variable {transfer : AgentTransfer V W Q R}

theorem workerReport_triple (snapshot : TaskLedger V) {spent : ℕ}
    (hspent : budget + (transfer.maxInvocationRetries + 1) ≤ spent) :
    Triple coreView (Opened team n budget dispatch.toAgentDispatch)
      (workerReport team transfer dispatch snapshot)
      (fun report core => report.taskId = dispatch.taskId ∧
        Opened team n spent dispatch.toAgentDispatch core)
      (Opened team n spent dispatch.toAgentDispatch) := by
  have hle : budget ≤ spent := (Nat.le_add_right _ _).trans hspent
  have hrequest : Triple coreView (Opened team n budget dispatch.toAgentDispatch)
      (callBoundary "request_builder" transfer.requestBuilder (dispatch, snapshot) : RunM V W A Q)
      (fun _ => Opened team n budget dispatch.toAgentDispatch)
      (Opened team n spent dispatch.toAgentDispatch) :=
    (Triple.of_leaves (leaves_callBoundary _ _ _)).conseq (fun _ => id) (fun _ _ => id)
      fun _ h => h.mono hle
  refine hrequest.bind fun request => ?_
  have hinvoke : Triple coreView (Opened team n budget dispatch.toAgentDispatch)
      (invokeWithRetries team dispatch request (transfer.maxInvocationRetries + 1) 1)
      (fun _ => Opened team n spent dispatch.toAgentDispatch)
      (Opened team n spent dispatch.toAgentDispatch) :=
    (invokeWithRetries_triple request _ 1).conseq (fun _ => id) (fun _ _ h => h.mono hspent)
      fun _ h => h.mono hspent
  refine hinvoke.bind fun reply => Triple.get.bind fun before => ?_
  refine (parseReport_triple _ transfer reply before.ledger).bind fun report => ?_
  refine Triple.assume fun hreport => Triple.get.bind fun after => ?_
  exact validateReport_triple _ transfer hreport after.ledger

theorem reportOf_triple (snapshot : TaskLedger V) {spent : ℕ}
    (hspent : budget + (transfer.maxInvocationRetries + 1) ≤ spent)
    (blocker : Option (TaskBlocker V)) :
    Triple coreView (Opened team n budget dispatch.toAgentDispatch)
      (reportOf team transfer dispatch snapshot blocker)
      (fun report core => report.taskId = dispatch.taskId ∧
        Opened team n spent dispatch.toAgentDispatch core)
      (Opened team n spent dispatch.toAgentDispatch) := by
  cases blocker with
  | none => exact workerReport_triple snapshot hspent
  | some blocker =>
    exact Triple.pure fun _ h => ⟨rfl, h.mono ((Nat.le_add_right _ _).trans hspent)⟩

theorem applyReport_triple {report : AgentReport V} (hreport : report.taskId = dispatch.taskId)
    (E : RunCore V → Prop) :
    Triple coreView (Opened team n budget dispatch.toAgentDispatch) (applyReport team dispatch report)
      (fun _ => Calm team n budget) E := by
  refine Triple.bind (Q := fun _ => Opened team n budget dispatch.toAgentDispatch)
    (Triple.modify fun _ h => h) fun _ => ?_
  have hcommit : Triple coreView (Opened team n budget dispatch.toAgentDispatch)
      (RunM.commit (.applyReport report dispatch.owner)
        (TaskLedger.applyReport team.same report dispatch.owner) : RunM V W A Bool)
      (fun _ => Calm team n budget) E := by
    refine triple_commit team (fun _ _ ledger => ledger.Idle) (fun ledger => ?_) (fun core h => ?_) ?_
    · show _ = (((fun _ => ()) <$> TaskLedger.applyReport team.same report dispatch.owner) ledger).final
      rw [final_map]
    · have hattempt := h.attempt
      rw [← hreport] at hattempt
      exact wp_post (TaskLedger.applyReport_closes team.same hattempt) (fun _ _ => id)
        fun _ _ => False.elim
    · intro core h _ ledger hidle hfinal
      exact h.close hfinal (.report report hreport) hidle
  exact hcommit.bind fun _ => (afterCommit_triple team _ _).bind fun _ => Triple.pure fun _ => id

theorem recordDispatchFailure_triple (error : RunError) (E : RunCore V → Prop) :
    Triple coreView (Opened team n budget dispatch.toAgentDispatch)
      (recordDispatchFailure team dispatch error) (fun _ => Calm team n budget) E := by
  have hcommit : Triple coreView (Opened team n budget dispatch.toAgentDispatch)
      (RunM.commit
        (.recordDispatchFailure dispatch.taskId dispatch.owner (boundaryBlocker team error) false)
        (TaskLedger.recordDispatchFailure dispatch.taskId dispatch.owner (boundaryBlocker team error)
          false) : RunM V W A Unit)
      (fun _ => Calm team n budget) E := by
    refine triple_commit team (fun _ _ ledger => ledger.Idle) (fun _ => rfl) (fun core h => ?_) ?_
    · exact wp_post (TaskLedger.recordDispatchFailure_closes _ _ h.attempt) (fun _ _ => id)
        fun _ _ => False.elim
    · intro core h _ ledger hidle hfinal
      exact h.close hfinal (.failure _ _) hidle
  exact hcommit.bind fun _ => (afterCommit_triple team _ _).bind fun _ => Triple.pure fun _ => id

end Attempt

def MultiAgent.roundBudget (team : MultiAgent V W A Q R) : ℕ := 1 + team.maxInvocationRetries

theorem retries_le {team : MultiAgent V W A Q R} {owner : String} {binding : AgentBinding V W A Q R}
    (h : team.binding owner = some binding) :
    binding.transfer.maxInvocationRetries + 1 ≤ team.roundBudget := by
  have hmem : binding ∈ team.bindings := List.mem_of_find?_eq_some h
  have hle : ∀ bindings : List (AgentBinding V W A Q R), binding ∈ bindings →
      binding.transfer.maxInvocationRetries ≤
        bindings.foldr (fun binding budget => max binding.transfer.maxInvocationRetries budget) 0 := by
    intro bindings hmem
    induction bindings with
    | nil => cases hmem
    | cons head rest ih =>
      rw [List.foldr_cons]
      rcases List.mem_cons.mp hmem with rfl | hmem
      · exact Nat.le_max_left _ _
      · exact (ih hmem).trans (Nat.le_max_right _ _)
  have := hle team.bindings hmem
  rw [MultiAgent.roundBudget, MultiAgent.maxInvocationRetries]
  omega

section Round

variable {team : MultiAgent V W A Q R} {n budget : ℕ}

theorem dispatch_triple (started : TeamDispatch V) :
    Triple coreView (Opened team n budget started.toAgentDispatch) (dispatch team started)
      (fun _ => Calm team n (budget + team.roundBudget)) (Calm team n (budget + team.roundBudget)) := by
  have hattempt : Triple coreView (Opened team n budget started.toAgentDispatch) (attempt team started)
      (fun _ => Calm team n (budget + team.roundBudget))
      (Opened team n (budget + team.roundBudget) started.toAgentDispatch) := by
    have hle : budget ≤ budget + team.roundBudget := Nat.le_add_right _ _
    have hbinding : Triple coreView (Opened team n budget started.toAgentDispatch)
        (requireBinding team started.owner)
        (fun binding core => team.binding started.owner = some binding ∧
          Opened team n budget started.toAgentDispatch core)
        (Opened team n (budget + team.roundBudget) started.toAgentDispatch) := by
      unfold requireBinding
      cases hfound : team.binding started.owner with
      | none => exact Triple.throw fun _ h => h.mono hle
      | some binding => exact Triple.pure fun _ h => ⟨rfl, h⟩
    refine hbinding.bind fun binding => Triple.assume fun hfound => ?_
    have hspent := Nat.add_le_add_left (retries_le hfound) budget
    refine Triple.get.bind fun state => ?_
    have happrove : Triple coreView (Opened team n budget started.toAgentDispatch)
        (approveDispatch binding.transfer started state.ledger : RunM V W A _)
        (fun _ => Opened team n budget started.toAgentDispatch)
        (Opened team n (budget + team.roundBudget) started.toAgentDispatch) :=
      (Triple.of_leaves (leaves_approveDispatch _ _ _)).conseq (fun _ => id) (fun _ _ => id)
        fun _ h => h.mono hle
    refine happrove.bind fun blocker => (reportOf_triple state.ledger hspent blocker).bind
      fun report => Triple.assume fun hreport => applyReport_triple hreport _
  exact hattempt.tryCatch fun error => recordDispatchFailure_triple error _

theorem note_triple {call : LedgerCall V} {method : LedgerM V Unit} (E : RunCore V → Prop)
    (hfinal : ∀ ledger, (method ledger).final = (call.run team.same ledger).final)
    (hreplan : ∀ n, TraceEntry.isReplan (.accepted n call) = false)
    (hattempt : ∀ n, TraceEntry.attempt? (.accepted n call) = none)
    (htasks : ∀ ledger, wp (fun _ => True) method (fun _ ledger' => ledger'.tasks = ledger.tasks)
      (fun _ _ => False) ledger) :
    Triple coreView (Calm team n budget) (RunM.commit call method : RunM V W A Unit)
      (fun _ => Calm team n budget) E := by
  refine triple_commit team (fun core _ ledger => ledger.tasks = core.ledger.tasks) hfinal
    (fun core _ => wp_post (htasks core.ledger) (fun _ _ => id) fun _ _ => False.elim) ?_
  intro core hcalm _ ledger hsame hend
  refine hcalm.accept hend (hreplan _) (hattempt _) ?_
  rw [TaskLedger.Idle, hsame]
  exact hcalm.idle

theorem rejectDelegate_triple (decision : OrchestratorDecision V) (E : RunCore V → Prop) :
    Triple coreView (Calm team n budget) (rejectDelegate team decision)
      (fun _ => Calm team n budget) E :=
  (note_triple E (fun _ => rfl) (fun _ => rfl) (fun _ => rfl)
    fun _ => TaskLedger.recordDecisionRejection_tasks _ _ _).bind fun _ => afterCommit_triple team _ _

theorem rejectFinish_triple (E : RunCore V → Prop) :
    Triple coreView (Calm team n budget) (rejectFinish team) (fun _ => Calm team n budget) E :=
  (note_triple E (fun _ => rfl) (fun _ => rfl) (fun _ => rfl)
    fun _ => TaskLedger.recordDecisionRejection_tasks _ _ _).bind fun _ =>
      (afterCommit_triple team _ _).bind fun _ => Triple.modify fun _ h => h

theorem updateNextAction_triple (decision : OrchestratorDecision V) (E : RunCore V → Prop) :
    Triple coreView (Calm team n budget) (updateNextAction team decision)
      (fun _ => Calm team n budget) E := by
  unfold updateNextAction
  cases decision.nextAction with
  | none => exact Triple.pure fun _ => id
  | some nextAction =>
    exact (note_triple E (fun _ => rfl) (fun _ => rfl) (fun _ => rfl)
      fun _ => TaskLedger.setNextAction_tasks _).bind fun _ => afterCommit_triple team _ _

theorem delegate_triple (decision : OrchestratorDecision V) :
    Triple coreView (Calm team n budget) (delegate team decision)
      (fun _ => Calm team n (budget + team.roundBudget))
      (Calm team n (budget + team.roundBudget)) := by
  have hmono : ∀ core, Calm team n budget core → Calm team n (budget + team.roundBudget) core :=
    fun _ h => h.mono (Nat.le_add_right _ _)
  unfold delegate
  split
  · next taskId owner instruction _ _ _ =>
    have hstart : Triple coreView (Calm team n budget)
        (tryCatch (some <$> startAttempt team decision taskId owner instruction) fun error =>
          if isRejection error then do
            rejectDelegate team decision
            pure none
          else throw error)
        (fun started core => started.elim (Calm team n budget core)
          fun started => Opened team n budget started.toAgentDispatch core)
        (Calm team n (budget + team.roundBudget)) := by
      refine (Triple.map (f := some) (startAttempt_triple decision taskId owner instruction)).tryCatch
        fun error => ?_
      exact Triple.ite (fun _ => (rejectDelegate_triple decision _).bind fun _ =>
        Triple.pure fun _ => id) fun _ => Triple.throw hmono
    refine hstart.bind fun started => ?_
    cases started with
    | none => exact Triple.pure hmono
    | some started => exact dispatch_triple started
  · exact Triple.throw hmono

/-! ### Replans and finishes -/

theorem commitReplan_triple (plan : OrchestratorPlan V) :
    Triple coreView (fun core => core.replans < team.settings.maxReplans ∧ Calm team n budget core)
      (commitReplan plan : RunM V W A Unit) (fun _ => Calm team n budget) (Calm team n budget) := by
  refine Triple.bind (Q := fun _ core => Calm team n budget { core with replans := core.replans + 1 })
    ?_ fun _ => Triple.modify fun _ h => h
  refine triple_commit team (fun _ _ ledger => ledger.Idle) (fun _ => rfl) (fun core h => ?_) ?_
  · refine wp_post (TaskLedger.applyPlan_idle plan true) (fun _ _ => id) ?_
    rintro _ _ rfl
    exact h.2
  · rintro core ⟨hlt, hcalm⟩ _ ledger hidle hfinal
    refine ⟨hcalm.counted.acceptReplan hfinal hlt, hidle, ?_⟩
    simpa [RunCore.accept, List.filterMap_cons, TraceEntry.attempt?] using hcalm.paired

variable [DecidableEq A]

theorem replanOnce_triple :
    Triple coreView (fun core => core.replans < team.settings.maxReplans ∧ Calm team n budget core)
      (replanOnce team) (fun _ => Calm team n budget) (Calm team n budget) := by
  have hkeep : ∀ {β : Type} {m : RunM V W A β}, Leaves coreView m →
      Triple coreView (fun core => core.replans < team.settings.maxReplans ∧ Calm team n budget core)
        m (fun _ core => core.replans < team.settings.maxReplans ∧ Calm team n budget core)
        (Calm team n budget) :=
    fun hm => (Triple.of_leaves hm).conseq (fun _ => id) (fun _ _ => id) fun _ h => h.2
  refine Triple.get.bind fun before => (hkeep (leaves_check _)).bind fun beforeReady => ?_
  refine (hkeep leaves_context).bind fun _ => (hkeep (leaves_call _ _)).bind fun plan => ?_
  refine (commitReplan_triple plan).bind fun _ => Triple.get.bind fun _ => ?_
  refine (Triple.of_leaves (leaves_check _)).bind fun _ => ?_
  refine Triple.bind (Q := fun _ => Calm team n budget) (Triple.modify fun _ h => h) fun _ => ?_
  refine (Triple.of_leaves (leaves_check _)).bind fun _ => ?_
  refine Triple.bind (Q := fun _ => Calm team n budget) (Triple.modify fun _ h => h) fun _ => ?_
  exact (afterCommit_triple team _ _).bind fun _ => Triple.of_leaves (leaves_resetWorkers team)

theorem tryReplan_triple :
    Triple coreView (Calm team n budget) (tryReplan team) (fun _ => Calm team n budget)
      (Calm team n budget) := by
  refine Triple.get_bind fun state hcalm => ?_
  refine Triple.ite (fun _ => Triple.pure ?_) fun hlt => ?_
  · rintro _ rfl
    exact hcalm
  · refine Triple.bind (replanOnce_triple.conseq ?_ (fun _ _ => id) fun _ => id) fun _ =>
      Triple.pure fun _ => id
    rintro _ rfl
    exact ⟨Nat.lt_of_not_le hlt, hcalm⟩

structure FinishedWork (team : MultiAgent V W A Q R) (ledger : TaskLedger V) : Prop where
  completed : ∀ taskId, ledger.Needed taskId → isCompleted ledger.tasks taskId = true
  verified : team.settings.requireVerifiedEvidence = true →
    ∀ record ∈ ledger.requiredTasks, TaskLedger.hasVerifiedEvidence record = true

/-- What a round leaves: no open attempt, and finished work where it says so. -/
def RoundLeaves (team : MultiAgent V W A Q R) (n budget : ℕ) (outcome : RoundEnd)
    (core : RunCore V) : Prop :=
  Calm team n budget core ∧
    ∀ reason, outcome = some (reason, true) → FinishedWork team core.ledger

theorem handleReplan_triple :
    Triple coreView (Calm team n budget) (handleReplan team) (RoundLeaves team n budget)
      (Calm team n budget) := by
  refine tryReplan_triple.bind fun replanned => Triple.get.bind fun state => ?_
  refine Triple.ite (fun _ => Triple.pure fun _ h => ⟨h, nofun⟩) fun _ => ?_
  exact Triple.ite (fun _ => Triple.pure fun _ h => ⟨h, nofun⟩) fun _ =>
    Triple.pure fun _ h => ⟨h, nofun⟩

theorem replanWhenStalled_triple :
    Triple coreView (Calm team n budget) (replanWhenStalled team) (RoundLeaves team n budget)
      (Calm team n budget) :=
  Triple.get.bind fun _ =>
    Triple.ite (fun _ => Triple.pure fun _ h => ⟨h, nofun⟩) fun _ => handleReplan_triple

omit [DecidableEq A] in
theorem finishedWork_of_gates {ledger : TaskLedger V} (hsound : Sound ledger.owners ledger.tasks)
    (h : ledgerGatesPass team ledger = .ok true) : FinishedWork team ledger := by
  obtain ⟨complete, hcomplete, hgates⟩ := bind_eq_ok h
  rw [TaskLedger.allRequiredComplete_eq hsound] at hcomplete
  have hresult := Except.ok.inj hgates
  simp only [Bool.and_eq_true, Bool.not_eq_true', Bool.and_eq_false_iff] at hresult
  obtain ⟨rfl, hevidence⟩ := hresult
  have hall := Except.ok.inj hcomplete
  simp only [Bool.not_false, Bool.true_or, Bool.and_true, List.all_eq_true, decide_eq_true_eq] at hall
  constructor
  · rintro taskId ⟨root, hroot, hreach⟩
    have hmem : root ∈ ledger.tasks := (List.mem_filter.mp hroot).1
    induction hreach with
    | refl =>
      exact isCompleted_eq_true.mpr ⟨root, findTask_of_mem hsound.unique hmem, hall root hroot⟩
    | tail _ hedge ih =>
      obtain ⟨record, hfind, hdone⟩ := isCompleted_eq_true.mp ih
      rw [Lib.DependsOn, dependencies, hfind] at hedge
      obtain ⟨found, hfound, rfl, hcompleted⟩ :=
        hsound.finished record (findTask_some hfind).1 (.inr hdone) _ hedge
      exact isCompleted_eq_true.mpr ⟨found, findTask_of_mem hsound.unique hfound, hcompleted⟩
  · intro hrequired
    rcases hevidence with hoff | hverified
    · rw [hrequired] at hoff
      cases hoff
    · rw [Bool.not_eq_false'] at hverified
      exact List.all_eq_true.mp hverified

omit [DecidableEq A] in
theorem finishGatePasses_triple (decision : OrchestratorDecision V) :
    Triple coreView (Calm team n budget) (finishGatePasses team decision)
      (fun passes core => Calm team n budget core ∧ (passes = true → FinishedWork team core.ledger))
      (Calm team n budget) := by
  refine Triple.get_bind fun state hcalm => ?_
  have hgates : Triple coreView (fun core => core = coreView state)
      (RunM.check (ledgerGatesPass team state.ledger) : RunM V W A Bool)
      (fun passes core => (passes = true → FinishedWork team state.ledger) ∧ core = coreView state)
      (Calm team n budget) := by
    intro state' hstate
    refine (wp_ofExcept _).mpr ⟨fun passes hpasses => ⟨?_, hstate⟩, fun _ _ => hstate ▸ hcalm⟩
    rintro rfl
    apply finishedWork_of_gates hcalm.counted.lawful.tasks
    cases hgates : ledgerGatesPass team state.ledger with
    | error error =>
      rw [hgates] at hpasses
      cases hpasses
    | ok passes =>
      rw [hgates] at hpasses
      exact hgates.trans (congrArg Except.ok (Except.ok.inj hpasses))
  refine hgates.bind fun passes => Triple.assume fun hfinished => Triple.ite (fun hpasses => ?_) fun _ => ?_
  · refine (Triple.of_leaves (leaves_completionCheckPasses team decision)).conseq (fun _ => id) ?_ ?_
    · rintro _ _ rfl
      exact ⟨hcalm, fun _ => hfinished hpasses⟩
    · rintro _ rfl
      exact hcalm
  · refine Triple.pure ?_
    rintro _ rfl
    exact ⟨hcalm, nofun⟩

omit [DecidableEq A] in
theorem handlePrematureFinish_triple (decision : OrchestratorDecision V) :
    Triple coreView (Calm team n budget) (handlePrematureFinish team decision)
      (RoundLeaves team n budget) (Calm team n budget) := by
  refine Triple.get.bind fun state => Triple.ite (fun _ => ?_) fun _ => ?_
  · exact Triple.bind (Q := fun _ => Calm team n budget) (Triple.modify fun _ h => h) fun _ =>
      Triple.pure fun _ h => ⟨h, nofun⟩
  · exact (rejectFinish_triple _).bind fun _ => Triple.pure fun _ h => ⟨h, nofun⟩

omit [DecidableEq A] in
theorem handleFinish_triple (decision : OrchestratorDecision V) :
    Triple coreView (Calm team n budget) (handleFinish team decision) (RoundLeaves team n budget)
      (Calm team n budget) := by
  refine (finishGatePasses_triple decision).bind fun passes => Triple.ite (fun hpasses => ?_) fun _ => ?_
  · exact Triple.bind
      (Q := fun _ core => Calm team n budget core ∧ (passes = true → FinishedWork team core.ledger))
      (Triple.modify fun _ h => h) fun _ => Triple.pure fun _ h => ⟨h.1, fun _ _ => h.2 hpasses⟩
  · exact (handlePrematureFinish_triple decision).conseq (fun _ h => h.1) (fun _ _ => id) fun _ => id

theorem runRound_triple :
    Triple coreView (Calm team n budget) (runRound team)
      (RoundLeaves team n (budget + team.roundBudget))
      (Calm team n (budget + team.roundBudget)) := by
  have hmono : ∀ core, Calm team n budget core → Calm team n (budget + team.roundBudget) core :=
    fun _ h => h.mono (Nat.le_add_right _ _)
  have hleaves : ∀ (outcome : RoundEnd) (core : RunCore V), RoundLeaves team n budget outcome core →
      RoundLeaves team n (budget + team.roundBudget) outcome core :=
    fun _ _ h => ⟨hmono _ h.1, h.2⟩
  have hkeep : ∀ {β : Type} {m : RunM V W A β}, Leaves coreView m →
      Triple coreView (Calm team n budget) m (fun _ => Calm team n budget)
        (Calm team n (budget + team.roundBudget)) :=
    fun hm => (Triple.of_leaves hm).conseq (fun _ => id) (fun _ _ => id) hmono
  refine (hkeep leaves_context).bind fun context => (hkeep (leaves_call _ _)).bind fun decision => ?_
  refine (hkeep (leaves_rememberCandidate decision)).bind fun _ => ?_
  refine (updateNextAction_triple decision _).bind fun _ => ?_
  cases decision.action with
  | finish =>
    refine Triple.bind ((handleFinish_triple decision).conseq (fun _ => id) hleaves hmono)
      fun outcome => ?_
    cases outcome with
    | some ended => exact Triple.pure fun _ => id
    | none => exact replanWhenStalled_triple.conseq (fun _ h => h.1) (fun _ _ => id) fun _ => id
  | replan => exact handleReplan_triple.conseq (fun _ => id) hleaves hmono
  | delegate =>
    exact (delegate_triple decision).bind fun progressed =>
      (Triple.of_leaves (leaves_updateStalls decision progressed)).bind fun _ =>
        replanWhenStalled_triple

theorem nextRound_triple :
    Triple coreView (Calm team n budget) (nextRound team)
      (RoundLeaves team (n + 1) (budget + team.roundBudget))
      (Calm team (n + 1) (budget + team.roundBudget)) := by
  refine Triple.bind
    (Q := fun _ core => Calm team (n + 1) budget (core.record (.round core.ledger)))
    (Triple.modify fun _ h => h.nextRound) fun _ => ?_
  refine Triple.get_bind fun state hcalm => ?_
  refine Triple.bind (Q := fun _ => Calm team (n + 1) budget) (Triple.modify ?_) fun _ =>
    runRound_triple
  intro state' hstate
  show Calm team (n + 1) budget ((coreView state').record (.round state.ledger))
  rw [hstate]
  exact hcalm

end Round

/-! ### Whole runs -/

section Run

variable [DecidableEq A] (team : MultiAgent V W A Q R)

/-- No attempt is open, and the rounds and their invocations are within the budgets. -/
def Bounded (core : RunCore V) : Prop :=
  ∃ n ≤ team.settings.maxRounds.val, Calm team n (n * team.roundBudget) core

variable {team}

theorem roundsLeft_triple {n left : ℕ} (h : n + left = team.settings.maxRounds.val) :
    Triple coreView (Calm team n (n * team.roundBudget)) (roundsLeft team left)
      (fun ended core => Bounded team core ∧ (ended.2 = true → FinishedWork team core.ledger))
      (Bounded team) := by
  induction left generalizing n with
  | zero => exact Triple.pure fun _ hcalm => ⟨⟨n, by omega, hcalm⟩, nofun⟩
  | succ left ih =>
    have hle : n + 1 ≤ team.settings.maxRounds.val := by omega
    have hbudget : n * team.roundBudget + team.roundBudget = (n + 1) * team.roundBudget :=
      (Nat.succ_mul n team.roundBudget).symm
    have hnext : Triple coreView (Calm team n (n * team.roundBudget)) (nextRound team)
        (RoundLeaves team (n + 1) ((n + 1) * team.roundBudget)) (Bounded team) :=
      nextRound_triple.conseq (fun _ => id) (fun _ _ hleaves => hbudget ▸ hleaves)
        fun _ hcalm => ⟨n + 1, hle, hbudget ▸ hcalm⟩
    refine hnext.bind fun outcome => ?_
    cases outcome with
    | none => exact (ih (by omega)).conseq (fun _ hleaves => hleaves.1) (fun _ _ => id) fun _ => id
    | some ended =>
      refine Triple.pure fun core hleaves => ⟨⟨n + 1, hle, hleaves.1⟩, fun hended => ?_⟩
      exact hleaves.2 ended.1 (by rw [← hended])

theorem runRounds_triple :
    Triple coreView (Calm team 0 0) (runRounds team)
      (fun ended core => Bounded team core ∧ (ended.2 = true → FinishedWork team core.ledger))
      (Bounded team) := by
  refine Triple.get_bind fun state hcalm => ?_
  have hzero : state.rounds = 0 := hcalm.counted.rounds_eq
  rw [hzero]
  refine (roundsLeft_triple (Nat.zero_add _)).conseq ?_ (fun _ _ => id) fun _ => id
  rintro _ rfl
  rwa [Nat.zero_mul]

omit [DecidableEq A] in
theorem applyInitialPlan_triple :
    Triple coreView (Calm team 0 0) (applyInitialPlan team) (fun _ => Calm team 0 0)
      (Calm team 0 0) := by
  refine (Triple.of_leaves leaves_context).bind fun _ => ?_
  refine (Triple.of_leaves (leaves_call _ _)).bind fun plan => ?_
  refine Triple.bind ?_ fun _ => afterCommit_triple team (Calm team 0 0) _
  refine triple_commit team (fun _ _ ledger => ledger.Idle) (fun _ => rfl) (fun core hcalm => ?_) ?_
  · refine wp_post (TaskLedger.applyPlan_idle plan false) (fun _ _ => id) ?_
    rintro _ _ rfl
    exact hcalm
  · intro core hcalm _ ledger hidle hfinal
    exact hcalm.accept hfinal rfl rfl hidle

omit [DecidableEq A] in
theorem finalizeResult_triple (P : RunCore V → Prop) (stopReason : MultiAgentStopReason)
    (completed : Bool) :
    Triple coreView P (finalizeResult team stopReason completed)
      (fun result core => result.completed = completed ∧ result.ledger = core.ledger ∧ P core) P := by
  refine (Triple.of_leaves leaves_context).bind fun _ => Triple.get.bind fun _ => ?_
  refine (Triple.of_leaves (leaves_call _ _)).bind fun _ => ?_
  refine (Triple.of_leaves (Leaves.throwIf _ _)).bind fun _ => Triple.get_bind fun state hP => ?_
  refine Triple.pure ?_
  rintro _ rfl
  exact ⟨rfl, rfl, hP⟩

theorem run_triple :
    Triple coreView (Calm team 0 0) (run team)
      (fun result core => Bounded team core ∧ result.ledger = core.ledger ∧
        (result.completed = true → FinishedWork team core.ledger))
      (Bounded team) := by
  have hbounded : ∀ core, Calm team 0 0 core → Bounded team core :=
    fun _ hcalm => ⟨0, Nat.zero_le _, by rwa [Nat.zero_mul]⟩
  refine Triple.bind ((Triple.of_leaves (leaves_initializeRun team)).conseq (fun _ => id)
    (fun _ _ => id) hbounded) fun _ => ?_
  refine Triple.bind (applyInitialPlan_triple.conseq (fun _ => id) (fun _ _ => id) hbounded)
    fun _ => ?_
  refine runRounds_triple.bind fun ended => ?_
  have hforget : ∀ core, (Bounded team core ∧ (ended.2 = true → FinishedWork team core.ledger)) →
      Bounded team core := fun _ h => h.1
  refine Triple.bind ((Triple.of_leaves (leaves_validateLimitReturn team ended.1)).conseq
    (fun _ => id) (fun _ _ => id) hforget) fun _ => ?_
  refine (finalizeResult_triple _ ended.1 ended.2).conseq (fun _ => id) ?_ hforget
  rintro result core ⟨hcompleted, hledger, hbounded, hfinished⟩
  exact ⟨hbounded, hledger, fun h => hfinished (hcompleted.symm.trans h)⟩

omit [DecidableEq A] in
theorem calm_start (world : W) :
    Calm team 0 0 (coreView (team.start world : MultiAgentRunState V W A)) := by
  have hcounted : Counted team 0 0 (coreView (team.start world : MultiAgentRunState V W A)) := by
    refine ⟨rfl, ?_, rfl, rfl, rfl, Nat.zero_le _, Nat.le_refl _⟩
    exact fun _ hmem => nomatch hmem
  have hidle : (coreView (team.start world : MultiAgentRunState V W A)).ledger.Idle := fun _ hmem => nomatch hmem
  exact ⟨hcounted, hidle, .nil⟩

/-- The rounds are the loop of the source, `while state.rounds < max_rounds`. -/
theorem runRounds_eq {n budget : ℕ} {state : MultiAgentRunState V W A}
    (hcalm : Calm team n budget (coreView state)) :
    runRounds team state =
      (if state.rounds < team.settings.maxRounds.val then do
        let outcome ← nextRound team
        match outcome with
        | some ended => pure ended
        | none => runRounds team
      else pure (.maxRounds, false)) state := by
  have hstart : runRounds team state
      = roundsLeft team (team.settings.maxRounds.val - state.rounds) state := rfl
  rw [hstart]
  split
  · next hlt =>
    obtain ⟨left, hleft⟩ : ∃ left, team.settings.maxRounds.val - state.rounds = left + 1 :=
      ⟨team.settings.maxRounds.val - state.rounds - 1, by omega⟩
    rw [hleft]
    refine bind_congr fun outcome houtcome => ?_
    cases outcome with
    | some ended => rfl
    | none =>
      have hend := (nextRound_triple state hcalm).2
      rw [houtcome] at hend
      have hrounds : (nextRound team state).final.rounds = n + 1 := hend.1.counted.rounds_eq
      have hnow : state.rounds = n := hcalm.counted.rounds_eq
      show roundsLeft team left _ = roundsLeft team (_ - (nextRound team state).final.rounds) _
      rw [hrounds]
      congr 1
      omega
  · next hge =>
    rw [Nat.sub_eq_zero_of_le (Nat.le_of_not_lt hge)]
    rfl

/-- However orchestrator, workers, transfers, completion check and event callback behave: a run stays
within its rounds, its replans and its worker invocations; every round starts with no task in
progress; every accepted start is followed by the one call that closes it, in the same round; and a
result is completed only if its ledger, which the accepted calls make, has the required work done. -/
theorem run_bounded_and_closed (team : MultiAgent V W A Q R) (world : W) :
    let ended := run team (team.start world)
    let trace := ended.final.trace
    trace.countP TraceEntry.isRound ≤ team.settings.maxRounds.val ∧
      trace.countP TraceEntry.isReplan ≤ team.settings.maxReplans ∧
      trace.countP TraceEntry.isInvocation
        ≤ team.settings.maxRounds.val * (1 + team.maxInvocationRetries) ∧
      (∀ ledger, TraceEntry.round ledger ∈ trace → ledger.Idle) ∧
      Paired (trace.filterMap TraceEntry.attempt?) ∧
      TaskLedger.after team.same team.createLedger (trace.filterMap TraceEntry.call?)
        = ended.final.ledger ∧
      ∀ result, ended.result = .ok result → result.ledger = ended.final.ledger ∧
        (result.completed = true → FinishedWork team result.ledger) := by
  intro ended trace
  have hend := (run_triple (team.start world) (calm_start world)).2
  have hbounded : Bounded team (coreView ended.final) := by
    split at hend
    · exact hend.1
    · exact hend
  obtain ⟨n, hn, ⟨hreplay, hheads, hrounds, -, hreplans, hreplans_le, hinvocations⟩, -, hpaired⟩ :=
    hbounded
  refine ⟨hrounds.trans_le hn, hreplans.trans_le hreplans_le, ?_, hheads, hpaired, hreplay, ?_⟩
  · exact hinvocations.trans (Nat.mul_le_mul_right _ hn)
  · intro result hresult
    rw [show (run team (team.start world)).result = .ok result from hresult] at hend
    obtain ⟨-, hledger, hfinished⟩ := hend
    exact ⟨hledger, fun h => hledger ▸ hfinished h⟩

end Run

end VidbyteSdk.Agents.Multi
