import VidbyteSdk.Lib.Checks
import VidbyteSdk.Lib.Worklist
import VidbyteSdk.Workflows.Contracts

/-!
# Graph declarations and their compilation

`StateGraph` and `_GraphCompiler` of `workflows/graph.py`, call by call. The dictionaries of the builder
are their rows in insertion order. The checks of Python types are left out: a stage, a validator and a
router are what their types say.
-/

namespace VidbyteSdk.Workflows

open VidbyteSdk.Lib

/-- `WorkflowDefinitionError`, with what its details name. -/
inductive DefinitionError where
  | emptyText (field : String)
  | nodeTaken (node : String)
  | terminalStatus (terminal : String)
  | routeTaken (source outcome : String)
  | noBranchKey (source outcome : String)
  | branchKeyTaken (source outcome branch : String)
  | noStage
  | entryUndeclared (entry : Option String)
  | noTerminal
  | stagesWithoutRoute (stages : List String)
  | sourceUndeclared (source outcome : String)
  | targetUndeclared (source outcome target : String)
  | errorOutcomeUnrouted (stage outcome : String)
  | stagesUnreachable (stages : List String)
  | noTerminalReachable (entry : Option String)
  deriving DecidableEq

def DefinitionError.message : DefinitionError → String
  | emptyText field => s!"Workflow {field} cannot be empty."
  | nodeTaken _ => "Workflow node names must be unique across stages and terminals."
  | terminalStatus _ => "StateGraph terminal status must be 'succeeded' or 'failed'."
  | routeTaken _ _ => "A source/outcome pair can have only one direct transition or branch."
  | noBranchKey _ _ => "StateGraph.add_branch requires at least one branch key."
  | branchKeyTaken _ _ _ => "Normalized branch keys must be unique."
  | noStage => "StateGraph requires at least one stage before compile()."
  | entryUndeclared _ => "StateGraph entry must name a declared stage."
  | noTerminal => "StateGraph requires at least one terminal before compile()."
  | stagesWithoutRoute _ => "Every nonterminal stage requires at least one outgoing route."
  | sourceUndeclared _ _ => "Workflow route source must be a declared stage."
  | targetUndeclared _ _ _ => "Workflow route target must be a declared stage or terminal."
  | errorOutcomeUnrouted _ _ =>
    "StagePolicy.error_outcome requires a declared route from its stage."
  | stagesUnreachable _ => "Every declared stage must be reachable from the entry stage."
  | noTerminalReachable _ => "At least one terminal must be reachable from the entry stage."

/-- Returns where the condition holds, and raises the error where it does not. -/
def require (c : Prop) [Decidable c] (e : DefinitionError) : Except DefinitionError Unit :=
  if c then .ok () else .error e

theorem require_eq_ok {c : Prop} [Decidable c] {e : DefinitionError} : require c e = .ok () ↔ c := by
  unfold require
  split
  · exact iff_of_true rfl ‹c›
  · exact iff_of_false nofun ‹¬c›

/-- `_required_text`. -/
def requiredText (value field : String) : Except DefinitionError String := do
  require (strip value ≠ "") (.emptyText field)
  .ok (strip value)

/-! ### The builder -/

/-- A branch destination with its guards; its target was normalized when it was made. -/
structure RouteTarget (S W : Type) where
  target : String
  guards : List (Validator S W)
  normalized : strip target = target ∧ target ≠ ""

inductive BranchTarget (S W : Type) where
  | text (target : String)
  | guarded (target : RouteTarget S W)

inductive StatusArgument where
  | status (status : MachineStatus)
  | text (text : String)

/-- `MachineStatus(status)`. -/
def StatusArgument.resolve : StatusArgument → Option MachineStatus
  | .status resolved => some resolved
  | .text "succeeded" => some .succeeded
  | .text "failed" => some .failed
  | .text _ => none

structure StateGraph (S W : Type) where
  stateContract : StateContract S W
  stages : List (String × StageDefinition S W) := []
  entry : Option String := none
  terminals : List (String × MachineStatus) := []
  routes : List ((String × String) × Route S W) := []

/-- `_route_targets`: every statically possible destination. -/
def Route.targets {S W : Type} : Route S W → List String
  | direct route => [route.target]
  | branch _ routes => routes.map fun entry => entry.2.target

namespace StateGraph

variable {S W : Type} (g : StateGraph S W)

def stageNames : List String := g.stages.map Prod.fst

def terminalNames : List String := g.terminals.map Prod.fst

/-- `_assert_name_is_available`. -/
def assertNameIsAvailable (name : String) : Except DefinitionError Unit :=
  require (name ∉ g.stageNames ∧ name ∉ g.terminalNames) (.nodeTaken name)

def addStage (name : String) (stage : Stage S W) (validators : List (Validator S W) := [])
    (policy : StagePolicy := {}) : Except DefinitionError (StateGraph S W) := do
  let stageName ← requiredText name "stage name"
  g.assertNameIsAvailable stageName
  .ok { g with stages := g.stages ++ [(stageName, ⟨stage, validators, policy⟩)] }

def setEntry (name : String) : Except DefinitionError (StateGraph S W) := do
  let entry ← requiredText name "entry stage"
  .ok { g with entry := some entry }

def addTerminal (name : String) (status : StatusArgument := .status .succeeded) :
    Except DefinitionError (StateGraph S W) := do
  let terminal ← requiredText name "terminal name"
  g.assertNameIsAvailable terminal
  match status.resolve with
  | none => .error (.terminalStatus terminal)
  | some resolved => .ok { g with terminals := g.terminals ++ [(terminal, resolved)] }

/-- `_route_key`. -/
def routeKey (source outcome : String) : Except DefinitionError (String × String) := do
  let source ← requiredText source "route source"
  let outcome ← requiredText outcome "route outcome"
  .ok (source, outcome)

/-- `_assert_route_is_available`. -/
def assertRouteIsAvailable (key : String × String) : Except DefinitionError Unit :=
  require (key ∉ g.routes.map Prod.fst) (.routeTaken key.1 key.2)

def addTransition (source target : String) (on : String := "success")
    (guards : List (Validator S W) := []) : Except DefinitionError (StateGraph S W) := do
  let key ← routeKey source on
  g.assertRouteIsAvailable key
  let target ← requiredText target "transition target"
  .ok { g with routes := g.routes ++ [(key, .direct ⟨target, guards⟩)] }

/-- `_normalize_route_target`. -/
def normalizeRouteTarget : BranchTarget S W → Except DefinitionError (DirectRoute S W)
  | .guarded value => .ok ⟨value.target, value.guards⟩
  | .text value => do
    let target ← requiredText value "branch target"
    .ok ⟨target, []⟩

/-- The loop of `_normalize_branch_routes`, after the entries in `normalized`. -/
def normalizeEntries (key : String × String) : List (String × BranchTarget S W) →
    List (String × DirectRoute S W) → Except DefinitionError (List (String × DirectRoute S W))
  | [], normalized => .ok normalized
  | (rawBranch, rawTarget) :: entries, normalized => do
    let branch ← requiredText rawBranch "branch key"
    require (branch ∉ normalized.map Prod.fst) (.branchKeyTaken key.1 key.2 branch)
    let destination ← normalizeRouteTarget rawTarget
    normalizeEntries key entries (normalized ++ [(branch, destination)])

/-- `_normalize_branch_routes`. -/
def normalizeBranchRoutes (key : String × String) (routes : List (String × BranchTarget S W)) :
    Except DefinitionError (List (String × DirectRoute S W)) := do
  require (routes ≠ []) (.noBranchKey key.1 key.2)
  normalizeEntries key routes []

def addBranch (source : String) (router : Router S W) (routes : List (String × BranchTarget S W))
    (on : String := "success") : Except DefinitionError (StateGraph S W) := do
  let key ← routeKey source on
  g.assertRouteIsAvailable key
  let normalized ← normalizeBranchRoutes key routes
  .ok { g with routes := g.routes ++ [(key, .branch router normalized)] }

end StateGraph

inductive BuilderCall (S W : Type) where
  | addStage (name : String) (stage : Stage S W) (validators : List (Validator S W))
    (policy : StagePolicy)
  | setEntry (name : String)
  | addTerminal (name : String) (status : StatusArgument)
  | addTransition (source target on : String) (guards : List (Validator S W))
  | addBranch (source : String) (router : Router S W) (routes : List (String × BranchTarget S W))
    (on : String)

namespace StateGraph

variable {S W : Type} (g : StateGraph S W)

def apply : BuilderCall S W → Except DefinitionError (StateGraph S W)
  | .addStage name stage validators policy => g.addStage name stage validators policy
  | .setEntry name => g.setEntry name
  | .addTerminal name status => g.addTerminal name status
  | .addTransition source target on guards => g.addTransition source target on guards
  | .addBranch source router routes on => g.addBranch source router routes on

def declare : StateGraph S W → List (BuilderCall S W) → Except DefinitionError (StateGraph S W)
  | g, [] => .ok g
  | g, call :: calls => do
    let next ← g.apply call
    declare next calls

/-! ### The compiler -/

/-- `_validate_required_nodes`. -/
def validateRequiredNodes : Except DefinitionError Unit := do
  require (g.stages ≠ []) .noStage
  require (∃ entry ∈ g.entry, entry ∈ g.stageNames) (.entryUndeclared g.entry)
  require (g.terminals ≠ []) .noTerminal
  let missing := sortedSet (g.stageNames.filter fun name => name ∉ g.routes.map fun entry => entry.1.1)
  require (missing = []) (.stagesWithoutRoute missing)

/-- One route of `_validate_routes`. -/
def validateRoute (entry : (String × String) × Route S W) : Except DefinitionError Unit := do
  require (entry.1.1 ∈ g.stageNames) (.sourceUndeclared entry.1.1 entry.1.2)
  entry.2.targets.forM fun target =>
    require (target ∈ g.stageNames ∨ target ∈ g.terminalNames)
      (.targetUndeclared entry.1.1 entry.1.2 target)

/-- `_validate_routes`. -/
def validateRoutes : Except DefinitionError Unit := g.routes.forM g.validateRoute

/-- One stage of `_validate_stage_recovery_routes`. -/
def validateRecoveryRoute (entry : String × StageDefinition S W) : Except DefinitionError Unit :=
  match entry.2.policy.errorOutcome with
  | none => .ok ()
  | some outcome =>
    require ((entry.1, outcome) ∈ g.routes.map Prod.fst) (.errorOutcomeUnrouted entry.1 outcome)

/-- `_validate_stage_recovery_routes`. -/
def validateStageRecoveryRoutes : Except DefinitionError Unit :=
  g.stages.forM g.validateRecoveryRoute

/-- The edges of `_reachable_nodes`: each route's source with each of its targets. -/
def edges : List (String × String) :=
  g.routes.flatMap fun entry => entry.2.targets.map fun target => (entry.1.1, target)

/-- `_reachable_nodes`. -/
def reachableNodes (entry : String) : List String := reachableFrom g.edges entry

/-- `_validate_reachability`. -/
def validateReachability : Except DefinitionError Unit := do
  let reachable := g.reachableNodes (g.entry.getD "")
  let unreachableStages := sortedSet (g.stageNames.filter (· ∉ reachable))
  require (unreachableStages = []) (.stagesUnreachable unreachableStages)
  let reachableTerminals := sortedSet (g.terminalNames.filter (· ∈ reachable))
  require (reachableTerminals ≠ []) (.noTerminalReachable g.entry)

/-- Runs static graph checks and creates one immutable definition snapshot. -/
def compile (settings : StateMachineSettings) : Except DefinitionError (CompiledGraph S W) := do
  g.validateRequiredNodes
  g.validateRoutes
  g.validateStageRecoveryRoutes
  g.validateReachability
  .ok
    { stateContract := g.stateContract, stages := g.stages, entry := g.entry.getD ""
      terminals := g.terminals, routes := g.routes, settings := settings }

end StateGraph

end VidbyteSdk.Workflows
