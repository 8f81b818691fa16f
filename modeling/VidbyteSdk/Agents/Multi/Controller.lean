import VidbyteSdk.Agents.Multi.Team

/-!
# The ledger controller

`MultiAgentOrchestratorLedger` with the orchestrator phases it awaits and the worker resets of
`MultiAgentCleanup`: plan commits, completion gates, replanning and event callbacks.
-/

namespace VidbyteSdk.Agents.Multi

open VidbyteSdk.Lib Prog

variable {V W A Q R α β : Type}

/-! ### Contexts and phases -/

/-- `context` -/
def context : RunM V W A (OrchestrationContext V) := do
  let state ← get
  pure ⟨state.ledger, state.rounds, state.replans, state.stalls, state.lastReport⟩

def phaseError (error : RunError) : RunError :=
  if error.typeName = "TimeoutError" then
    .execution "Multi-agent orchestrator phase exceeded its configured timeout."
  else error

/-- `MultiAgentOrchestratorRunner.call` -/
def call (phase : Boundary W α β) (a : α) : RunM V W A β :=
  tryCatch (RunM.callOut phase a) fun error => throw (phaseError error)

/-! ### Change of a replan -/

/-- `_ready_task_ids` -/
def readyTaskIds (ledger : TaskLedger V) : Except TaskLedgerError (List String) := do
  let ready ← (ledger.tasks.filter isActive).filterM fun record => ledger.isReady record.taskId
  .ok ((ready.map (·.taskId)).mergeSort fun left right => decide (left ≤ right))

/-- What `_signature` compares of one task. -/
structure TaskSignature where
  taskId : String
  goal : String
  owner : Option String
  dependsOn : List String
  required : Bool
  acceptanceCriteria : List String
  maxAttempts : ℕ
  payload : String
  metadata : String
  deriving DecidableEq

section Signature

variable (team : MultiAgent V W A Q R)

def taskSignature (record : TaskRecord V) : TaskSignature where
  taskId := record.taskId
  goal := record.goal
  owner := record.owner
  dependsOn := record.dependsOn
  required := record.required
  acceptanceCriteria := record.acceptanceCriteria
  maxAttempts := record.maxAttempts.val
  payload := team.fingerprint record.payload
  metadata := team.fingerprintMetadata record.metadata

/-- `_signature`; task ids are unique, so the order of the ids is that of the tuples. -/
def signature (ledger : TaskLedger V) : List TaskSignature × List (List String) :=
  (((ledger.tasks.filter isActive).map (taskSignature team)).mergeSort fun left right =>
      decide (left.taskId ≤ right.taskId),
    [ledger.verifiedFacts, ledger.factsToFind, ledger.factsToDerive, ledger.educatedGuesses])

/-- `_material_replan_change` -/
def materialReplanChange (before : TaskLedger V) (beforeReady : List String)
    (after : TaskLedger V) : Except TaskLedgerError Bool := do
  let afterReady ← readyTaskIds after
  .ok (signature team before ≠ signature team after || beforeReady ≠ afterReady)

end Signature

/-! ### Events -/

variable (team : MultiAgent V W A Q R)

/-- `_emit_event` -/
def emitEvent (callback : Boundary W (LedgerEvent × TaskLedger V) Unit) (event : LedgerEvent) :
    RunM V W A Unit := do
  modify fun state => { state with lastEmittedEventIndex := event.index }
  let state ← get
  tryCatch (RunM.callOut callback (event, state.ledger)) fun error =>
    modify fun state => { state with eventErrorTypes := state.eventErrorTypes ++ [error.typeName] }

/-- `after_commit` -/
def afterCommit : RunM V W A Unit := do
  let state ← get
  match team.onEvent, state.ledger.events.getLast? with
  | some callback, some event =>
    if state.lastEmittedEventIndex < event.index then emitEvent callback event else pure ()
  | _, _ => pure ()

/-! ### Plans and decisions -/

/-- `apply_initial_plan` -/
def applyInitialPlan : RunM V W A Unit := do
  let context ← context
  let plan ← call team.orchestrator.plan context
  RunM.commit (.applyPlan plan false) (TaskLedger.applyPlan plan false)
  afterCommit team

/-- `update_next_action` -/
def updateNextAction (decision : OrchestratorDecision V) : RunM V W A Unit :=
  match decision.nextAction with
  | none => pure ()
  | some nextAction => do
    RunM.commit (.setNextAction (some nextAction)) (TaskLedger.setNextAction (some nextAction))
    afterCommit team

/-- `remember_candidate` -/
def rememberCandidate (decision : OrchestratorDecision V) : RunM V W A Unit :=
  match decision.finalAnswer with
  | none => pure ()
  | some answer =>
    if isBlank answer then pure ()
    else modify fun state => { state with candidateAnswer := some answer }

/-- The structural gates of `finish_gate_passes`. -/
def ledgerGatesPass (ledger : TaskLedger V) : Except TaskLedgerError Bool := do
  let complete ← ledger.allRequiredComplete false
  .ok (complete &&
    !(team.settings.requireVerifiedEvidence && !ledger.requiredTasksHaveVerifiedEvidence))

/-- The extension gate of `finish_gate_passes`. -/
def completionCheckPasses (decision : OrchestratorDecision V) : RunM V W A Bool :=
  match team.completionCheck with
  | none => pure true
  | some completionCheck => do
    let context ← context
    RunM.callOut completionCheck (context, decision)

/-- `finish_gate_passes` -/
def finishGatePasses (decision : OrchestratorDecision V) : RunM V W A Bool := do
  let state ← get
  let passes ← RunM.check (ledgerGatesPass team state.ledger)
  if passes then completionCheckPasses team decision else pure false

/-- `reject_finish` -/
def rejectFinish : RunM V W A Unit := do
  let message := "Finish rejected because completion gates are not satisfied."
  RunM.commit (.recordDecisionRejection message none none)
    (TaskLedger.recordDecisionRejection message none none)
  afterCommit team
  modify fun state => { state with stalls := state.stalls + 1 }

/-! ### Worker forks and resets -/

section Workers

variable [DecidableEq A]

def transferError (message : String) (error : RunError) : RunError :=
  if error.typeName = "AgentTransferError" then error else .transfer message

/-- `AgentBinding.fork` -/
def forkWorker (binding : AgentBinding V W A Q R) : RunM V W A A := do
  let worker ← tryCatch (RunM.callOut binding.fork binding.agent) fun error =>
    throw (transferError "Worker fork factory failed." error)
  throwIf (worker = binding.agent)
    (.transfer "Worker fork must return an isolated agent instance, not the configured template.")
  pure worker

def installWorker (binding : AgentBinding V W A Q R) : RunM V W A Unit := do
  let worker ← forkWorker binding
  let state ← get
  throwIf (∃ entry ∈ state.workers, entry.1 ≠ binding.owner ∧ entry.2 = worker)
    (.transfer "Worker fork factories must return a distinct run-local instance per owner.")
  modify fun state => { state with workers := upsert (·.1) (binding.owner, worker) state.workers }

/-- The type of the error that `operation` raises, if it does. -/
def errorType (operation : RunM V W A Unit) : RunM V W A (Option String) :=
  tryCatch ((fun _ => none) <$> operation) fun error => pure (some error.typeName)

/-- `_reset_worker` and `_install_replacement` -/
def resetWorker (binding : AgentBinding V W A Q R) : RunM V W A (Option String) := do
  let state ← get
  match state.workers.find? fun entry => entry.1 = binding.owner with
  | none => throw (.raised "KeyError")
  | some (_, worker) => do
    let failed ← errorType (RunM.callOut binding.close worker)
    match failed with
    | some typeName => pure (some typeName)
    | none => do
      modify fun state =>
        { state with workers := state.workers.filter fun entry => entry.1 ≠ binding.owner }
      errorType (installWorker binding)

def resetSelected (binding : AgentBinding V W A Q R) : RunM V W A (Option String) :=
  if binding.transfer.resetOnReplan then resetWorker binding else pure none

def resetErrors : List (AgentBinding V W A Q R) → RunM V W A (List (String × String))
  | [] => pure []
  | binding :: rest => do
    let failed ← resetSelected binding
    let errors ← resetErrors rest
    pure (failed.toList.map (binding.owner, ·) ++ errors)

/-- `reset_workers` -/
def resetWorkers : RunM V W A Unit := do
  let errors ← resetErrors team.bindings
  throwIf (errors ≠ [])
    (.execution "One or more workers could not be safely reset after replanning.")

/-! ### Replans -/

def commitReplan (plan : OrchestratorPlan V) : RunM V W A Unit := do
  RunM.commit (.applyPlan plan true) (TaskLedger.applyPlan plan true)
  modify fun state => { state with replans := state.replans + 1 }

/-- `try_replan` within its budget. -/
def replanOnce : RunM V W A Unit := do
  let before ← get
  let beforeReady ← RunM.check (readyTaskIds before.ledger)
  let context ← context
  let plan ← call team.orchestrator.replan context
  commitReplan plan
  let after ← get
  let changed ← RunM.check (materialReplanChange team before.ledger beforeReady after.ledger)
  modify fun state => { state with stalls := if changed then 0 else 1 }
  let unrecoverable ← RunM.check after.ledger.requiredWorkIsUnrecoverable
  modify fun state => { state with unrecoverable := unrecoverable }
  afterCommit team
  resetWorkers team

/-- `try_replan` -/
def tryReplan : RunM V W A Bool := do
  let state ← get
  if team.settings.maxReplans ≤ state.replans then pure false
  else do
    replanOnce team
    pure true

end Workers

end VidbyteSdk.Agents.Multi
