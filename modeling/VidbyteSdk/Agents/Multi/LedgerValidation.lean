import VidbyteSdk.Agents.Multi.Records
import VidbyteSdk.Lib.DepthFirst
import VidbyteSdk.Lib.Upsert

/-!
# Ledger validation

The checks of `TaskLedgerValidator` on plans, dispatches and reports. A dictionary of tasks is the
list of its records, whose ids are its keys.
-/

namespace VidbyteSdk.Agents.Multi

open VidbyteSdk.Lib

variable {V : Type}

/-- `candidate.get(task_id)` -/
def findTask (tasks : List (TaskRecord V)) (taskId : String) : Option (TaskRecord V) :=
  tasks.find? fun record => record.taskId = taskId

/-- `candidate[task_id].depends_on`; no search asks for a task that is not there. -/
def dependencies (tasks : List (TaskRecord V)) (taskId : String) : List String :=
  ((findTask tasks taskId).map (·.dependsOn)).getD []

def isActive (record : TaskRecord V) : Bool := record.status ≠ .superseded

/-- `_validate_candidate_owner` -/
def validateCandidateOwner (owners : List String) (record : TaskRecord V) :
    Except TaskLedgerError Unit :=
  match record.owner with
  | none => .ok ()
  | some owner => if owner ∈ owners then .ok () else .error (.unknownOwner record.taskId owner)

/-- One edge of `_validate_candidate_dependencies`. -/
def validateDependency (record : TaskRecord V) (candidate : List (TaskRecord V))
    (dependency : String) : Except TaskLedgerError Unit :=
  if dependency = record.taskId then .error (.badDependency record.taskId dependency)
  else
    match findTask candidate dependency with
    | none => .error (.badDependency record.taskId dependency)
    | some found =>
      if found.status = .superseded then .error (.supersededDependency record.taskId dependency)
      else .ok ()

/-- `_validate_candidate_dependencies` -/
def validateCandidateDependencies (record : TaskRecord V) (candidate : List (TaskRecord V)) :
    Except TaskLedgerError Unit :=
  if (upsertAll id record.dependsOn).length ≠ record.dependsOn.length then
    .error (.duplicateDependencies record.taskId)
  else record.dependsOn.forM (validateDependency record candidate)

/-- `_validate_acyclic` -/
def validateAcyclic (candidate : List (TaskRecord V)) : Except TaskLedgerError Unit :=
  match visitAll (dependencies candidate) (candidate.length + 1) (fun _ => none)
      ((candidate.filter isActive).map (·.taskId)) with
  | .error taskId => .error (.cycle taskId)
  | .ok _ => .ok ()

/-- The loop of `validate_candidate` over the tasks. -/
def validateRecord (owners : List String) (candidate : List (TaskRecord V)) (record : TaskRecord V) :
    Except TaskLedgerError Unit :=
  if record.status = .superseded then .ok ()
  else do
    validateCandidateOwner owners record
    validateCandidateDependencies record candidate

/-- `validate_candidate` -/
def validateCandidate (owners : List String) (candidate : List (TaskRecord V)) :
    Except TaskLedgerError Unit := do
  candidate.forM (validateRecord owners candidate)
  validateAcyclic candidate

/-- `validate_completed_identity` -/
def validateCompletedIdentity (record : TaskRecord V) (spec : TaskSpec V) :
    Except TaskLedgerError Unit :=
  if record.goal = spec.goal ∧ record.dependsOn = spec.dependsOn ∧
      record.acceptanceCriteria = spec.acceptanceCriteria ∧ record.required = spec.required ∧
      (spec.owner = none ∨ spec.owner = record.owner) then .ok ()
  else .error (.completedIdentity record.taskId)

/-- `require_in_progress_owner` -/
def requireInProgressOwner (record : TaskRecord V) (owner : String) : Except TaskLedgerError Unit :=
  if record.status = .inProgress ∧ record.owner = some owner then .ok ()
  else .error (.notInProgress record.taskId record.status record.owner owner)

/-- `_validate_dispatch_owner` -/
def validateDispatchOwner (owners : List String) (dispatch : AgentDispatch) (record : TaskRecord V) :
    Except TaskLedgerError Unit :=
  if dispatch.owner ∉ owners then .error (.unconfiguredOwner dispatch.taskId dispatch.owner)
  else
    match record.owner with
    | none => .ok ()
    | some owner =>
      if owner = dispatch.owner then .ok ()
      else .error (.plannedOwner dispatch.taskId owner dispatch.owner)

/-- `validate_dispatch` -/
def validateDispatch (owners : List String) (dispatch : AgentDispatch) (record : TaskRecord V)
    (revision : ℕ) (isReady : String → Except TaskLedgerError Bool) : Except TaskLedgerError Unit :=
  if dispatch.baseRevision ≠ revision then
    .error (.staleRevision dispatch.taskId revision dispatch.baseRevision)
  else do
    validateDispatchOwner owners dispatch record
    let ready ← isReady dispatch.taskId
    if !ready then .error (.notReady dispatch.taskId record.status record.attempts)
    else if dispatch.attempt ≠ record.attempts + 1 then
      .error (.wrongAttempt dispatch.taskId (record.attempts + 1) dispatch.attempt)
    else .ok ()

/-- `_unique_specs` -/
def uniqueSpecs (specs : List (TaskSpec V)) : Except TaskLedgerError (List (TaskSpec V)) :=
  let ids := specs.map (·.taskId)
  if ids.length ≠ (upsertAll id ids).length then
    .error (.duplicateTaskIds ids.length (upsertAll id ids).length)
  else .ok specs

end VidbyteSdk.Agents.Multi
