import VidbyteSdk.Agents.Multi.LedgerRuns

/-!
# Teams

A `MultiAgent` and the state of one of its runs. Orchestrator, workers and callbacks are boundaries:
they return any value of their type or raise an ordinary exception, such as their own timeout. A run
also keeps a trace of its rounds, its accepted ledger calls and its worker invocations, which the
controller never reads. The timeout of the whole run and tracing are left out, and what is the same in
every context of a run.
-/

namespace VidbyteSdk.Agents.Multi

open VidbyteSdk.Lib Prog

/-- Code outside the model: a function of its argument and of the world that returns or raises an
ordinary exception, which is the name of its type. -/
abbrev Boundary (W α β : Type) : Type := α → W → Except String β × W

/-! ### Contracts -/

inductive OrchestratorAction
  | delegate
  | replan
  | finish
  deriving DecidableEq

inductive MultiAgentStopReason
  | completed
  | partialFinish
  | maxRounds
  | maxReplans
  | unrecoverable
  deriving DecidableEq

variable (V : Type)

structure OrchestratorDecision where
  action : OrchestratorAction
  taskId : Option String
  owner : Option String
  instruction : Option String
  payload : Option V
  nextAction : Option String
  finalAnswer : Option String
  loopDetected : Bool

structure TeamDispatch extends AgentDispatch where
  goal : String
  acceptanceCriteria : List String
  instruction : String
  payload : Option V
  round : ℕ

structure OrchestrationContext where
  ledger : TaskLedger V
  round : ℕ
  replans : ℕ
  stalls : ℕ
  lastReport : Option (AgentReport V)

structure FinalizationContext where
  orchestration : OrchestrationContext V
  stopReason : MultiAgentStopReason
  completed : Bool
  candidateAnswer : Option String
  finishDecision : Option (OrchestratorDecision V)

structure MultiAgentResult where
  content : String
  completed : Bool
  stopReason : MultiAgentStopReason
  ledger : TaskLedger V
  rounds : ℕ
  replans : ℕ
  eventErrorTypes : List String

/-! ### Teams -/

variable (W A Q R : Type)

/-- The boundaries of one worker, with requests `Q` and replies `R`. -/
structure AgentTransfer where
  beforeDispatch : Option (Boundary W (TeamDispatch V × TaskLedger V) (Option (TaskBlocker V)))
  requestBuilder : Boundary W (TeamDispatch V × TaskLedger V) Q
  reportParser : Boundary W (R × TeamDispatch V × TaskLedger V) (AgentReport V)
  reportValidator :
    Option (Boundary W (AgentReport V × TeamDispatch V × TaskLedger V) (AgentReport V))
  resetOnReplan : Bool
  maxInvocationRetries : ℕ

/-- A worker template `agent` under its name, the owner of tasks. -/
structure AgentBinding where
  owner : String
  agent : A
  transfer : AgentTransfer V W Q R
  fork : Boundary W A A
  close : Boundary W A Unit

structure MultiAgentOrchestrator where
  fork : Boundary W Unit Unit
  plan : Boundary W (OrchestrationContext V) (OrchestratorPlan V)
  decide : Boundary W (OrchestrationContext V) (OrchestratorDecision V)
  replan : Boundary W (OrchestrationContext V) (OrchestratorPlan V)
  finalize : Boundary W (FinalizationContext V) String

structure MultiAgent where
  settings : MultiAgentSettings
  orchestrator : MultiAgentOrchestrator V W
  bindings : List (AgentBinding V W A Q R)
  bindings_ne_nil : bindings ≠ []
  /-- The reply of a worker to a request, at one invocation of a dispatch. -/
  generateReply : Boundary W (A × Q × TeamDispatch V × ℕ) R
  completionCheck : Option (Boundary W (OrchestrationContext V × OrchestratorDecision V) Bool)
  onEvent : Option (Boundary W (LedgerEvent × TaskLedger V) Unit)
  same : V → V → Bool
  /-- A text as an opaque value. -/
  text : String → V
  fingerprint : Option V → String
  fingerprintMetadata : List (String × V) → String

/-! ### Runs -/

inductive RunError
  | raised (typeName : String)
  | ledger (error : TaskLedgerError)
  | transfer (message : String)
  | execution (message : String)
  | value (message : String)
  deriving DecidableEq

/-- `type(error).__name__` -/
def RunError.typeName : RunError → String
  | .raised typeName => typeName
  | .ledger _ => "TaskLedgerError"
  | .transfer _ => "AgentTransferError"
  | .execution _ => "MultiAgentExecutionError"
  | .value _ => "ValueError"

inductive TraceEntry
  | round (ledger : TaskLedger V)
  | accepted (round : ℕ) (call : LedgerCall V)
  | invoked (round : ℕ) (owner : String)

structure MultiAgentRunState where
  world : W
  ledger : TaskLedger V
  workers : List (String × A) := []
  rounds : ℕ := 0
  replans : ℕ := 0
  stalls : ℕ := 0
  lastReport : Option (AgentReport V) := none
  candidateAnswer : Option String := none
  finishDecision : Option (OrchestratorDecision V) := none
  unrecoverable : Bool := false
  lastEmittedEventIndex : ℤ := -1
  eventErrorTypes : List String := []
  trace : List (TraceEntry V) := []

abbrev RunM (α : Type) := Prog (MultiAgentRunState V W A) RunError α

variable {V W A Q R}
variable {α β : Type}

namespace RunM

def callOut (boundary : Boundary W α β) (a : α) : RunM V W A β := do
  let state ← get
  modify fun state => { state with world := (boundary a state.world).2 }
  ofExcept ((boundary a state.world).1.mapError .raised)

def record (entry : TraceEntry V) : RunM V W A Unit :=
  modify fun state => { state with trace := state.trace ++ [entry] }

def check (reading : Except TaskLedgerError α) : RunM V W A α := ofExcept (reading.mapError .ledger)

def onLedger (method : LedgerM V α) : RunM V W A α :=
  tryCatch (zoom (·.ledger) (fun ledger state => { state with ledger := ledger }) method) fun error =>
    throw (.ledger error)

def commit (call : LedgerCall V) (method : LedgerM V α) : RunM V W A α := do
  let result ← onLedger method
  let state ← get
  record (.accepted state.rounds call)
  pure result

end RunM

namespace MultiAgent

variable (team : MultiAgent V W A Q R)

def owners : List String := team.bindings.map (·.owner)

/-- `_bindings_by_owner.get(owner)` -/
def binding (owner : String) : Option (AgentBinding V W A Q R) :=
  team.bindings.find? fun binding => binding.owner = owner

def maxInvocationRetries : ℕ :=
  team.bindings.foldr (fun binding budget => max binding.transfer.maxInvocationRetries budget) 0

def createLedger : TaskLedger V :=
  TaskLedger.create ⟨team.owners, by simpa [owners] using team.bindings_ne_nil⟩ team.settings

def start (world : W) : MultiAgentRunState V W A where
  world := world
  ledger := team.createLedger

end MultiAgent

end VidbyteSdk.Agents.Multi
