import VidbyteSdk.Agents.Multi.LedgerReports
import VidbyteSdk.Agents.Multi.LedgerValidation
import VidbyteSdk.Lib.Prog
import VidbyteSdk.Lib.Text

/-!
# The task ledger

`TaskLedger` of `agents/multi/ledger.py`, method by method, as programs over its state that may raise
a `TaskLedgerError`. A snapshot is the state itself. The run id, the goal and the metadata of the
run, which only snapshots show, are left out.
-/

namespace VidbyteSdk.Agents.Multi

open VidbyteSdk.Lib

structure TaskLedger (V : Type) where
  owners : List String
  owners_ne_nil : owners ≠ []
  settings : MultiAgentSettings
  tasks : List (TaskRecord V) := []
  planSummary : String := ""
  verifiedFacts : List String := []
  factsToFind : List String := []
  factsToDerive : List String := []
  educatedGuesses : List String := []
  nextAction : Option String := none
  events : List LedgerEvent := []
  revision : ℕ := 0
  eventIndex : ℕ := 0

abbrev LedgerM (V α : Type) := Prog (TaskLedger V) TaskLedgerError α

variable {V : Type}

namespace TaskLedger

def create (owners : { owners : List String // owners ≠ [] }) (settings : MultiAgentSettings) :
    TaskLedger V where
  owners := owners.1
  owners_ne_nil := owners.2
  settings := settings
  tasks := []

/-! ### Reading -/

/-- `task` -/
def task (ledger : TaskLedger V) (taskId : String) : Except TaskLedgerError (TaskRecord V) :=
  match findTask ledger.tasks taskId with
  | none => .error (.unknownTask taskId)
  | some record => .ok record

/-- `all(self.task(dependency).status is COMPLETED for ...)` -/
def allCompleted (ledger : TaskLedger V) : List String → Except TaskLedgerError Bool
  | [] => .ok true
  | dependency :: rest => do
    let record ← ledger.task dependency
    if record.status = .completed then ledger.allCompleted rest else .ok false

def isStartable (record : TaskRecord V) : Bool :=
  (record.status = .pending || record.status = .failed) && record.attempts < record.maxAttempts.val

/-- `is_ready` -/
def isReady (ledger : TaskLedger V) (taskId : String) : Except TaskLedgerError Bool := do
  let record ← ledger.task taskId
  if isStartable record then ledger.allCompleted record.dependsOn else .ok false

def requiredTasks (ledger : TaskLedger V) : List (TaskRecord V) :=
  ledger.tasks.filter fun record => record.required && isActive record

def hasVerifiedEvidence (record : TaskRecord V) : Bool := record.evidence.any (·.verified)

/-- One term of `all_required_complete`. -/
def isComplete (ledger : TaskLedger V) (requireVerifiedEvidence : Bool) (record : TaskRecord V) :
    Except TaskLedgerError Bool :=
  if record.status = .completed then do
    let dependencies ← ledger.allCompleted record.dependsOn
    .ok (dependencies && (!requireVerifiedEvidence || hasVerifiedEvidence record))
  else .ok false

/-- `all_required_complete` -/
def allRequiredComplete (ledger : TaskLedger V) (requireVerifiedEvidence : Bool) :
    Except TaskLedgerError Bool :=
  ledger.requiredTasks.allM (ledger.isComplete requireVerifiedEvidence)

/-- `required_tasks_have_verified_evidence` -/
def requiredTasksHaveVerifiedEvidence (ledger : TaskLedger V) : Bool :=
  ledger.requiredTasks.all hasVerifiedEvidence

/-- The tasks that `_collect_required_dependency` gathers. -/
def neededTasks (ledger : TaskLedger V) : List String :=
  (ledger.requiredTasks.map (·.taskId)).foldl
    (collect (dependencies ledger.tasks) (ledger.tasks.length + 1)) []

/-- `required_work_is_unrecoverable` -/
def requiredWorkIsUnrecoverable (ledger : TaskLedger V) : Except TaskLedgerError Bool := do
  let complete ← ledger.allRequiredComplete false
  if complete then .ok false
  else do
    let ready ← ledger.neededTasks.anyM ledger.isReady
    .ok !ready

/-! ### Writing -/

def retained (maxEvents : Positive) (events : List LedgerEvent) : List LedgerEvent :=
  if maxEvents.val < events.length then events.drop (events.length - maxEvents.val) else events

/-- `_commit_event` -/
def committed (kind : String) (taskId owner : Option String) (message : String)
    (metadata : List (String × EventValue)) (ledger : TaskLedger V) : TaskLedger V :=
  { ledger with
    revision := ledger.revision + 1
    eventIndex := ledger.eventIndex + 1
    events := retained ledger.settings.maxEvents
      (ledger.events ++
        [⟨ledger.eventIndex, kind, ledger.revision + 1, taskId, owner, message, metadata⟩]) }

def commitEvent (kind : String) (taskId owner : Option String) (message : String)
    (metadata : List (String × EventValue)) : LedgerM V Unit :=
  Prog.modify (committed kind taskId owner message metadata)

/-- `self._tasks[task_id] = record` -/
def setTask (record : TaskRecord V) : LedgerM V Unit :=
  Prog.modify fun ledger =>
    { ledger with
      tasks := upsert (·.taskId) record ledger.tasks }

/-- `_new_record` -/
def newRecord (settings : MultiAgentSettings) (spec : TaskSpec V) : TaskRecord V where
  taskId := spec.taskId
  goal := spec.goal
  owner := spec.owner
  dependsOn := spec.dependsOn
  required := spec.required
  acceptanceCriteria := spec.acceptanceCriteria
  payload := spec.payload
  maxAttempts := spec.maxAttempts.getD settings.maxTaskAttempts
  metadata := spec.metadata

/-- `_update_unfinished_record` -/
def updateUnfinishedRecord (settings : MultiAgentSettings) (record : TaskRecord V)
    (spec : TaskSpec V) : TaskRecord V :=
  { record with
    goal := spec.goal
    owner := spec.owner
    status := .pending
    dependsOn := spec.dependsOn
    required := spec.required
    acceptanceCriteria := spec.acceptanceCriteria
    payload := spec.payload
    maxAttempts := spec.maxAttempts.getD settings.maxTaskAttempts
    nextAction := none
    metadata := spec.metadata }

/-- What `_commit_plan` assigns before its event. -/
def planned (plan : OrchestratorPlan V) (candidate : List (TaskRecord V)) (ledger : TaskLedger V) :
    TaskLedger V :=
  { ledger with
    tasks := candidate
    planSummary := plan.planSummary
    verifiedFacts := plan.verifiedFacts
    factsToFind := plan.factsToFind
    factsToDerive := plan.factsToDerive
    educatedGuesses := plan.educatedGuesses
    nextAction := plan.nextAction }

/-- `_commit_plan` -/
def commitPlan (plan : OrchestratorPlan V) (candidate : List (TaskRecord V)) (kind : String) :
    LedgerM V Unit := do
  Prog.modify (planned plan candidate)
  commitEvent kind none none plan.planSummary [("task_count", .number plan.tasks.length)]

def replanned (ledger : TaskLedger V) (spec : TaskSpec V) : Except TaskLedgerError (TaskRecord V) :=
  match findTask ledger.tasks spec.taskId with
  | none => .ok (newRecord ledger.settings spec)
  | some existing =>
    if existing.status = .superseded then .error (.supersededId spec.taskId)
    else if existing.status = .completed then do
      validateCompletedIdentity existing spec
      .ok existing
    else .ok (updateUnfinishedRecord ledger.settings existing spec)

def omitted (ledger : TaskLedger V) (specs : List (TaskSpec V)) : List (TaskRecord V) :=
  (ledger.tasks.filter fun record => record.taskId ∉ specs.map (·.taskId)).map fun record =>
    if record.status = .completed then record else { record with status := .superseded }

/-- The candidate of `apply_replan`. -/
def replanCandidate (ledger : TaskLedger V) (plan : OrchestratorPlan V) :
    Except TaskLedgerError (List (TaskRecord V)) := do
  let specs ← uniqueSpecs plan.tasks
  let records ← specs.mapM ledger.replanned
  let candidate := records ++ ledger.omitted specs
  validateCandidate ledger.owners candidate
  .ok candidate

def checkEmptyReplan (ledger : TaskLedger V) (plan : OrchestratorPlan V) :
    Except TaskLedgerError Unit :=
  if plan.tasks.isEmpty then do
    let complete ← ledger.allRequiredComplete false
    if complete then .ok () else .error .emptyReplan
  else .ok ()

/-- `apply_replan` -/
def applyReplan (plan : OrchestratorPlan V) : LedgerM V Unit := do
  let ledger ← Prog.get
  Prog.throwIf (ledger.tasks.isEmpty = true) .noPlan
  Prog.ofExcept (ledger.checkEmptyReplan plan)
  let candidate ← Prog.ofExcept (ledger.replanCandidate plan)
  commitPlan plan candidate "plan_replaced"

/-- The candidate of `apply_plan`. -/
def planCandidate (ledger : TaskLedger V) (plan : OrchestratorPlan V) :
    Except TaskLedgerError (List (TaskRecord V)) := do
  let specs ← uniqueSpecs plan.tasks
  let candidate := specs.map (newRecord ledger.settings)
  validateCandidate ledger.owners candidate
  .ok candidate

/-- `apply_plan` -/
def applyPlan (plan : OrchestratorPlan V) (replan : Bool) : LedgerM V Unit :=
  if replan then applyReplan plan
  else do
    let ledger ← Prog.get
    Prog.throwIf (ledger.tasks.isEmpty = false) (.notEmpty ledger.revision)
    Prog.throwIf (plan.tasks.isEmpty = true) .emptyInitialPlan
    let candidate ← Prog.ofExcept (ledger.planCandidate plan)
    commitPlan plan candidate "plan_applied"

/-- `start_task` -/
def startTask (dispatch : AgentDispatch) : LedgerM V Unit := do
  let ledger ← Prog.get
  let record ← Prog.ofExcept (ledger.task dispatch.taskId)
  Prog.ofExcept
    (validateDispatch ledger.owners dispatch record ledger.revision ledger.isReady)
  setTask
    { record with
      owner := some dispatch.owner
      status := .inProgress
      attempts := dispatch.attempt }
  commitEvent "task_started" (some dispatch.taskId) (some dispatch.owner) ""
    [("attempt", .number dispatch.attempt)]

/-- `apply_report`, and whether it made progress. -/
def applyReport (same : V → V → Bool) (report : AgentReport V) (owner : String) : LedgerM V Bool := do
  let ledger ← Prog.get
  let record ← Prog.ofExcept (ledger.task report.taskId)
  Prog.ofExcept (requireInProgressOwner record owner)
  let reduced := reduceReport same record report
  setTask reduced.1
  commitEvent "task_reported" (some report.taskId) (some owner) ""
    [("status", .text reduced.1.status.value), ("attempt", .number reduced.1.attempts)]
  pure reduced.2

def dispatchFailureStatus (record : TaskRecord V) (blocker : TaskBlocker V) (blocked : Bool) :
    TaskStatus :=
  if !blocked && blocker.retryable && decide (record.attempts < record.maxAttempts.val) then .failed
  else .blocked

/-- `record_dispatch_failure` -/
def recordDispatchFailure (taskId owner : String) (blocker : TaskBlocker V) (blocked : Bool) :
    LedgerM V Unit := do
  let ledger ← Prog.get
  let record ← Prog.ofExcept (ledger.task taskId)
  Prog.ofExcept (requireInProgressOwner record owner)
  let status := dispatchFailureStatus record blocker blocked
  setTask
    { record with
      status := status
      blockers := record.blockers ++ [blocker] }
  commitEvent "dispatch_failed" (some taskId) (some owner) blocker.message
    [("status", .text status.value), ("code", .text blocker.code)]

/-- `record_decision_rejection` -/
def recordDecisionRejection (message : String) (taskId owner : Option String) : LedgerM V Unit :=
  commitEvent "decision_rejected" taskId owner message []

/-- The hint that `set_next_action` stores. -/
def cleanedAction (nextAction : Option String) : Option String :=
  nextAction.bind fun text => if isBlank text then none else some (strip text)

/-- `set_next_action` -/
def setNextAction (nextAction : Option String) : LedgerM V Unit := do
  Prog.modify fun ledger =>
    { ledger with
      nextAction := cleanedAction nextAction }
  commitEvent "next_action_updated" none none ((cleanedAction nextAction).getD "") []

end TaskLedger

end VidbyteSdk.Agents.Multi
