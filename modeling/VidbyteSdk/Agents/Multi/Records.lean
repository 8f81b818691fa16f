import Mathlib.Data.List.Basic

/-!
# Multi-agent records

The contracts of ledger-driven orchestration. `V` is the type of the values the ledger stores and
never looks into: payloads, results, the values of evidence and metadata. Identifiers are texts that
the records have stripped and found not blank, which nothing here depends on.
-/

namespace VidbyteSdk.Agents.Multi

/-- A limit that the settings require to be greater than zero. -/
abbrev Positive := { n : ℕ // 0 < n }

inductive TaskStatus
  | pending
  | inProgress
  | completed
  | failed
  | blocked
  | superseded
  deriving DecidableEq

def TaskStatus.value : TaskStatus → String
  | .pending => "pending"
  | .inProgress => "in_progress"
  | .completed => "completed"
  | .failed => "failed"
  | .blocked => "blocked"
  | .superseded => "superseded"

variable (V : Type)

structure TaskEvidence where
  source : String
  value : V
  kind : String
  verified : Bool
  metadata : List (String × V)

structure TaskBlocker where
  code : String
  message : String
  retryable : Bool
  metadata : List (String × V)

structure TaskSpec where
  taskId : String
  goal : String
  owner : Option String
  dependsOn : List String
  required : Bool
  acceptanceCriteria : List String
  payload : Option V
  maxAttempts : Option Positive
  metadata : List (String × V)

structure TaskRecord where
  taskId : String
  goal : String
  owner : Option String
  status : TaskStatus := .pending
  dependsOn : List String
  required : Bool
  acceptanceCriteria : List String
  payload : Option V
  result : Option V := none
  evidence : List (TaskEvidence V) := []
  blockers : List (TaskBlocker V) := []
  attempts : ℕ := 0
  maxAttempts : Positive
  nextAction : Option String := none
  metadata : List (String × V)

inductive EventValue
  | number (n : ℕ)
  | text (t : String)
  deriving DecidableEq

structure LedgerEvent where
  index : ℕ
  kind : String
  revision : ℕ
  taskId : Option String
  owner : Option String
  message : String
  metadata : List (String × EventValue)

structure OrchestratorPlan where
  planSummary : String
  tasks : List (TaskSpec V)
  verifiedFacts : List String
  factsToFind : List String
  factsToDerive : List String
  educatedGuesses : List String
  nextAction : Option String

structure AgentDispatch where
  baseRevision : ℕ
  taskId : String
  owner : String
  attempt : ℕ

inductive ReportStatus
  | completed
  | failed
  | blocked
  deriving DecidableEq

structure AgentReport where
  taskId : String
  status : ReportStatus
  result : Option V
  evidence : List (TaskEvidence V)
  blockers : List (TaskBlocker V)
  nextAction : Option String

/-- Budgets and policies of one team; its timeouts are left out. -/
structure MultiAgentSettings where
  maxRounds : Positive
  maxReplans : ℕ
  maxTaskAttempts : Positive
  replanAfterStalls : Positive
  requireVerifiedEvidence : Bool
  allowPartialFinish : Bool
  returnPartialOnLimit : Bool
  maxEvents : Positive

/-- Why the ledger refuses a call, with the details of the error. -/
inductive TaskLedgerError
  | notEmpty (revision : ℕ)
  | emptyInitialPlan
  | noPlan
  | emptyReplan
  | duplicateTaskIds (taskCount uniqueTaskCount : ℕ)
  | supersededId (taskId : String)
  | completedIdentity (taskId : String)
  | unknownTask (taskId : String)
  | unknownOwner (taskId owner : String)
  | duplicateDependencies (taskId : String)
  | badDependency (taskId dependency : String)
  | supersededDependency (taskId dependency : String)
  | cycle (taskId : String)
  | staleRevision (taskId : String) (expected actual : ℕ)
  | unconfiguredOwner (taskId owner : String)
  | plannedOwner (taskId expected actual : String)
  | notReady (taskId : String) (status : TaskStatus) (attempts : ℕ)
  | wrongAttempt (taskId : String) (expected actual : ℕ)
  | notInProgress (taskId : String) (status : TaskStatus) (expected : Option String)
      (actual : String)
  deriving DecidableEq

def TaskLedgerError.message : TaskLedgerError → String
  | .notEmpty _ => "apply_plan may only initialize an empty TaskLedger."
  | .emptyInitialPlan => "An initial orchestrator plan must contain at least one task."
  | .noPlan => "apply_replan requires an existing plan."
  | .emptyReplan => "A replan may be empty only after all required work is complete."
  | .duplicateTaskIds _ _ => "Orchestrator plan contains duplicate task ids."
  | .supersededId _ =>
    "A superseded task id cannot be revived; replanned work requires a new task id."
  | .completedIdentity _ => "Replan cannot change the structural identity of a completed task."
  | .unknownTask _ => "Task id is not present in the ledger."
  | .unknownOwner _ _ => "Plan references an unknown task owner."
  | .duplicateDependencies _ => "Task dependencies must be unique."
  | .badDependency _ _ => "Task dependency is missing or self-referential."
  | .supersededDependency _ _ => "Active tasks cannot depend on superseded work."
  | .cycle _ => "Task plan contains a dependency cycle."
  | .staleRevision _ _ _ => "Dispatch base_revision is stale."
  | .unconfiguredOwner _ _ => "Dispatch owner is not a configured worker."
  | .plannedOwner _ _ _ => "Dispatch owner does not match the planned owner."
  | .notReady _ _ _ => "Task is not ready for dispatch."
  | .wrongAttempt _ _ _ => "Dispatch attempt does not match the next ledger attempt."
  | .notInProgress _ _ _ _ => "Task report does not match an in-progress owner."

end VidbyteSdk.Agents.Multi
