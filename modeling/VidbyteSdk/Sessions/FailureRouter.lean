import Mathlib.Data.Finset.Basic
import VidbyteSdk.Lib.MarkedLedger

/-!
# The failure router

`FailureRouter` of `sessions/failure/router.py`: the bounded ledger of a session's failures, its rules,
and the recovery handlers bound to failure codes.

The router runs in an event loop, so a run is a sequence of atomic sections, each up to the next
`await`. A task is suspended in a rule's callback or in a recovery handler; `Config.step` starts an
operation or resumes a task. What a callback or handler does meanwhile (record failures, run the
session again, route the pending failures itself) are steps of their own. `log` tells what was recorded
and what was handed to a handler; the router does not read it. `on_capture` only observes.
-/

namespace VidbyteSdk.Sessions

open VidbyteSdk.Lib

/-! ### Records -/

/-- The codes the router itself records, and all others by their value. -/
inductive FailureCode where
  | ruleEvaluationFailed
  | recoveryHandlerFailed
  | other (value : String)
  deriving DecidableEq

inductive FailurePhase where
  | configuration | input | model | tool | action | output | loop | session | workflow | data
  | resource | observability | recovery | runtime | unknown
  deriving DecidableEq

inductive FailureStatus where
  | observed | recovering | recovered | exhausted | terminal
  deriving DecidableEq

inductive FailureDisposition where
  | record | continue | route | stop | raise
  deriving DecidableEq

/-- Behavior when a rule or recovery handler itself raises. -/
inductive RuleErrorMode where
  | open | closed
  deriving DecidableEq

/-- Lifecycle breakpoints exposed by the direct agent runtime. -/
inductive MiddlewareHook where
  | beforeRun | beforeIteration | beforeModelCall | afterModelResponse | onModelError
  | beforeToolCall | afterToolCall | afterIteration | afterRun | reviewFinish
  deriving DecidableEq

structure Failure where
  code : FailureCode
  source : String
  id : String
  phase : FailurePhase := .runtime
  status : FailureStatus := .observed
  disposition : FailureDisposition := .record
  handledBy : Option String := none
  deriving DecidableEq

structure RecoveryAttempt where
  failureId : String
  handler : String
  succeeded : Bool
  disposition : FailureDisposition := .continue
  errorType : Option String := none
  deriving DecidableEq

structure RecoveryResult where
  succeeded : Bool
  disposition : FailureDisposition := .continue
  deriving DecidableEq

/-- The fields of a recovery handler; `onError` is `none` where it is no valid `RuleErrorMode`. -/
structure RecoveryHandler where
  name : String
  onError : Option RuleErrorMode
  deriving DecidableEq

structure RecoveryBinding where
  handler : RecoveryHandler
  includeRecovered : Bool
  deriving DecidableEq

/-- A developer-provided failure detector; `callback` is the identity of its function. -/
structure FailureRule where
  callback : Nat
  name : String
  code : FailureCode
  on : MiddlewareHook
  onMatch : FailureDisposition
  onError : RuleErrorMode
  priority : Int := 0
  deriving DecidableEq

structure FailureRouterSettings where
  maxHistory : Nat
  maxHistory_pos : 0 < maxHistory
  enabled : Bool := true

/-! ### The router -/

/-- Session-scoped bounded ledger that escalates only exhausted failures. -/
structure FailureRouter where
  settings : FailureRouterSettings
  history : List Failure := []
  rules : List FailureRule := []
  bindings : FailureCode → Option RecoveryBinding := fun _ => none
  recoveryAttempts : List RecoveryAttempt := []
  routedIds : Finset String := ∅
  recoveringIds : Finset String := ∅

namespace FailureRouter

def ledger (r : FailureRouter) : MarkedLedger String :=
  ⟨r.history.map (·.id), r.routedIds⟩

/-- Appends one failure to the bounded history without routing it. -/
def record (r : FailureRouter) (failure : Failure) : FailureRouter :=
  if r.settings.enabled then
    let history := r.history ++ [failure]
    -- a failure recorded while a handler runs is never routed
    let routedIds :=
      if r.recoveringIds.Nonempty then insert failure.id r.routedIds else r.routedIds
    let excess := history.length - r.settings.maxHistory
    { r with
      history := history.drop excess
      routedIds := routedIds \ ((history.take excess).map (·.id)).toFinset }
  else r

/-- `_replace`: the record of the id in place, or a new record where the id was evicted. -/
def replace (r : FailureRouter) (failure : Failure) : FailureRouter :=
  match r.history.findIdx? (·.id = failure.id) with
  | some index => { r with history := r.history.set index failure }
  | none =>
    let r := r.record failure
    { r with routedIds := insert failure.id r.routedIds }

/-- `add_rule`: higher priority first, a callback once. -/
def addRule (r : FailureRouter) (rule : FailureRule) : FailureRouter :=
  if r.rules.any (·.callback = rule.callback) then r
  else
    { r with rules := (r.rules ++ [rule]).mergeSort fun a b => decide (b.priority ≤ a.priority) }

def removeRule (r : FailureRouter) (callback : Nat) : FailureRouter :=
  { r with rules := r.rules.filter (·.callback ≠ callback) }

def on (r : FailureRouter) (code : FailureCode) (binding : RecoveryBinding) : FailureRouter :=
  { r with bindings := Function.update r.bindings code (some binding) }

/-- The handler that `route` hands a failure to; `none` where it returns without one. -/
def handlerFor (r : FailureRouter) (failure : Failure) : Option RecoveryBinding :=
  if r.settings.enabled then
    match r.bindings failure.code with
    | none => none
    | some binding =>
      if failure.status = .recovered ∧ ¬ binding.includeRecovered then none
      else if failure.id ∈ r.routedIds then none
      else some binding
  else none

/-- `route` up to the call of the handler. -/
def handOver (r : FailureRouter) (failure : Failure) (binding : RecoveryBinding) : FailureRouter :=
  let r := { r with routedIds := insert failure.id r.routedIds }
  let r := r.replace { failure with status := .recovering, handledBy := some binding.handler.name }
  { r with recoveringIds := insert failure.id r.recoveringIds }

def addRecoveryAttempt (r : FailureRouter) (attempt : RecoveryAttempt) : FailureRouter :=
  let attempts := r.recoveryAttempts ++ [attempt]
  { r with recoveryAttempts := attempts.drop (attempts.length - r.settings.maxHistory) }

end FailureRouter

/-- `_handler_error_mode`: an unknown or invalid value fails closed. -/
def RecoveryHandler.errorMode (handler : RecoveryHandler) : RuleErrorMode :=
  handler.onError.getD .closed

/-- `_with_rule_disposition`: the rule's own code and disposition, and the status they imply. -/
def FailureRule.withRuleDisposition (current : FailureRule) (failure : Failure) : Failure :=
  { failure with
    code := current.code
    status := match current.onMatch with
      | .stop | .raise => .terminal
      | .route => .exhausted
      | _ => failure.status
    disposition := current.onMatch }

/-- `_rule_error`: the record of a detector's own exception. -/
def FailureRule.ruleError (current : FailureRule) (id : String) : Failure where
  code := .ruleEvaluationFailed
  source := current.name
  id := id
  phase := .runtime
  status := match current.onError with
    | .closed => .terminal
    | .open => .observed
  disposition := match current.onError with
    | .closed => if current.onMatch = .raise then .raise else .stop
    | .open => .continue

/-! ### Tasks -/

/-- What a task does once its recovery handler has ended. -/
inductive Continuation where
  | evaluate (rules : List FailureRule)
  | routePending (pending : List Failure)

/-- A suspended task: in the callback of a rule, with the rules still to evaluate, or in a handler. -/
inductive RouterTask where
  | rule (current : FailureRule) (rules : List FailureRule)
  | recovery (failure : Failure) (binding : RecoveryBinding) (next : Continuation)

/-- How a rule's callback ends; `cancelled` is any exception that is no `Exception`. -/
inductive RuleOutcome where
  | returned (failure : Option Failure)
  | raised
  | cancelled

inductive HandlerOutcome where
  | returned (result : RecoveryResult)
  | returnedOther
  | failureRaised
  | raised (errorType : String)
  | cancelled

/-- What a run did: a failure recorded by `record`, and whether a handler ran then; and a failure
handed to a handler. The records `_replace` makes are no new failures. -/
inductive RouterEvent where
  | recorded (failure : Failure) (handlerRan : Bool)
  | handed (failure : Failure) (binding : RecoveryBinding)
  deriving DecidableEq

structure RouterConfig where
  router : FailureRouter
  tasks : List RouterTask := []
  log : List RouterEvent := []

def RouterTask.isRecovery : RouterTask → Bool
  | rule .. => false
  | recovery .. => true

/-- What `capture_exception` reads of an exception: the id of a raised failure, and the tagged ids. -/
structure RaisedException where
  raisedId : Option String
  taggedIds : List String

namespace RouterConfig

variable (c : RouterConfig)

def handlerRuns : Bool := c.tasks.any (·.isRecovery)

def record (failure : Failure) : RouterConfig :=
  if c.router.settings.enabled then
    { c with
      router := c.router.record failure
      log := c.log ++ [.recorded failure c.handlerRuns] }
  else c

def replace (failure : Failure) : RouterConfig :=
  { c with router := c.router.replace failure }

/-- Calls the handler of `binding`; the calling task waits for it. -/
def handOver (failure : Failure) (binding : RecoveryBinding) (next : Continuation) : RouterConfig where
  router := c.router.handOver failure binding
  tasks := c.tasks ++ [.recovery failure binding next]
  log := c.log ++ [.handed failure binding]

def captureReply (failures : List Failure) : RouterConfig :=
  if c.router.settings.enabled then failures.foldl record c else c

/-- Records the failure made from an exception, unless the ledger holds a record of it already. -/
def captureException (exc : RaisedException) (failure : Failure) : RouterConfig :=
  if c.router.history.any fun f => exc.raisedId = some f.id ∨ f.id ∈ exc.taggedIds then c
  else c.record failure

def evaluateRules : List FailureRule → RouterConfig
  | [] => c
  | current :: rules => { c with tasks := c.tasks ++ [.rule current rules] }

def evaluate (hook : MiddlewareHook) : RouterConfig :=
  if c.router.settings.enabled then c.evaluateRules (c.router.rules.filter (·.on = hook)) else c

/-- The loop of `route_pending` over the rest of its snapshot. `liveIds` are the ids of the ledger: the
source takes them at the start and again after each handler, and nothing else runs in between. -/
def routeSnapshot (liveIds : List String) : List Failure → RouterConfig
  | [] => c
  | failure :: pending =>
    if (failure.status = .exhausted ∨ failure.disposition = .route) ∧
        failure.id ∉ c.router.routedIds ∧ failure.id ∈ liveIds then
      match c.router.handlerFor failure with
      | some binding => c.handOver failure binding (.routePending pending)
      | none => routeSnapshot liveIds pending
    else routeSnapshot liveIds pending

def routePending (pending : List Failure) : RouterConfig :=
  if c.router.settings.enabled then c.routeSnapshot (c.router.history.map (·.id)) pending else c

/-- The rest of `evaluate` once a rule has matched: records, routes, raises or goes on. -/
def applyRule (current : FailureRule) (rules : List FailureRule) (failure : Failure) : RouterConfig :=
  if current.code = .ruleEvaluationFailed then c
  else
    let effective := current.withRuleDisposition failure
    let c := c.record effective
    match effective.disposition with
    | .route =>
      match c.router.handlerFor effective with
      | some binding => c.handOver effective binding (.evaluate rules)
      | none => c.evaluateRules rules
    | .raise => c
    | .stop => c
    | _ => c.evaluateRules rules

/-- `evaluate` from the end of a rule's callback on; `newId` is the id of a failure made here. -/
def resumeRule (current : FailureRule) (rules : List FailureRule) (newId : String) :
    RuleOutcome → RouterConfig
  | .returned none => c.evaluateRules rules
  | .returned (some failure) => c.applyRule current rules failure
  | .raised =>
    let c := c.record (current.ruleError newId)
    match current.onError with
    | .closed => c
    | .open => c.evaluateRules rules
  | .cancelled => c

/-- `_handle_recovery_error`: the configuration, and whether `route` returns rather than raises. -/
def handleRecoveryError (failure : Failure) (binding : RecoveryBinding) (newId errorType : String) :
    RouterConfig × Bool :=
  let isClosed := binding.handler.errorMode = .closed
  let handlerFailure : Failure :=
    { code := .recoveryHandlerFailed, source := binding.handler.name, id := newId, phase := .recovery
      status := if isClosed then .terminal else .observed
      disposition := if isClosed then .raise else .continue }
  let c := c.record handlerFailure
  let attempt : RecoveryAttempt :=
    { failureId := failure.id, handler := binding.handler.name, succeeded := false
      disposition := handlerFailure.disposition, errorType := some errorType }
  let c := { c with router := c.router.addRecoveryAttempt attempt }
  (c.replace { failure with
    status := if isClosed then .terminal else .exhausted
    disposition := handlerFailure.disposition
    handledBy := some binding.handler.name }, !isClosed)

/-- `route` from the end of the handler on: the configuration, and whether `route` returns. -/
def finishRoute (failure : Failure) (binding : RecoveryBinding) (newId : String) :
    HandlerOutcome → RouterConfig × Bool
  | .returned result =>
    let attempt : RecoveryAttempt :=
      { failureId := failure.id, handler := binding.handler.name, succeeded := result.succeeded
        disposition := result.disposition }
    let c := { c with router := c.router.addRecoveryAttempt attempt }
    (c.replace { failure with
      status := if result.succeeded then .recovered else .exhausted
      disposition := result.disposition
      handledBy := some binding.handler.name }, true)
  | .returnedOther => c.handleRecoveryError failure binding newId "TypeError"
  | .raised errorType => c.handleRecoveryError failure binding newId errorType
  | .failureRaised =>
    (c.replace { failure with
      status := .terminal
      disposition := .raise
      handledBy := some binding.handler.name }, false)
  | .cancelled => (c, false)

/-- The configuration once the handler of the `i`-th task has ended. -/
def endRecovery (i : Nat) (failure : Failure) : RouterConfig :=
  { c with
    router := { c.router with recoveringIds := c.router.recoveringIds.erase failure.id }
    tasks := c.tasks.eraseIdx i }

def continueWith : Continuation → RouterConfig
  | .evaluate rules => c.evaluateRules rules
  | .routePending pending => c.routePending pending

/-- A step of the event loop: an operation starts, or the `i`-th task resumes. -/
inductive Action where
  | captureReply (failures : List Failure)
  | captureException (exc : RaisedException) (failure : Failure)
  | emit (failure : Failure)
  | evaluate (hook : MiddlewareHook)
  | routePending
  | addRule (rule : FailureRule)
  | removeRule (callback : Nat)
  | on (code : FailureCode) (binding : RecoveryBinding)
  | ruleEnds (i : Nat) (outcome : RuleOutcome) (newId : String)
  | handlerEnds (i : Nat) (outcome : HandlerOutcome) (newId : String)

def step : Action → RouterConfig
  | .captureReply failures => c.captureReply failures
  | .captureException exc failure => c.captureException exc failure
  | .emit failure => c.record failure
  | .evaluate hook => c.evaluate hook
  | .routePending => c.routePending c.router.history
  | .addRule rule => { c with router := c.router.addRule rule }
  | .removeRule callback => { c with router := c.router.removeRule callback }
  | .on code binding => { c with router := c.router.on code binding }
  | .ruleEnds i outcome newId =>
    match c.tasks[i]? with
    | some (.rule current rules) =>
      { c with tasks := c.tasks.eraseIdx i }.resumeRule current rules newId outcome
    | _ => c
  | .handlerEnds i outcome newId =>
    match c.tasks[i]? with
    | some (.recovery failure binding next) =>
      let (c, returned) := (c.endRecovery i failure).finishRoute failure binding newId outcome
      if returned then c.continueWith next else c
    | _ => c

def run (settings : FailureRouterSettings) (actions : List Action) : RouterConfig :=
  actions.foldl step { router := { settings := settings } }

end RouterConfig

end VidbyteSdk.Sessions
