import Mathlib.Algebra.Order.Ring.Rat
import VidbyteSdk.Lib.Upsert

/-!
# The middleware pipeline

`MiddlewarePipeline._run` of `middleware/pipeline.py` with the decisions of
`lib/dataclasses/middleware.py`. A middleware is the caller's code: a hook is any function of its context
and of the world, which it may change. The fields of a context that no transform touches are one value.
-/

namespace VidbyteSdk.Middleware

open VidbyteSdk.Lib

inductive MiddlewareHook where
  | beforeRun | beforeIteration | beforeModelCall | afterModelResponse | onModelError | beforeToolCall
  | afterToolCall | afterIteration | afterRun
  deriving DecidableEq

inductive MiddlewareAction where
  | «continue» | sleep | abortRun | denyTool | retry
  deriving DecidableEq

inductive MetadataValue (V : Type) where
  | text (text : String)
  | other (value : V)
  deriving DecidableEq

abbrev Metadata (V : Type) : Type := List (String × MetadataValue V)

/-- `{**current, **next}`. -/
def mergeMetadata {V : Type} (current next : Metadata V) : Metadata V :=
  next.foldl (fun rows row => upsert Prod.fst row rows) current

/-- Model-visible runtime updates: messages `M`, tool results `R`. -/
structure MiddlewareTransform (M R V : Type) where
  modelVisibleToolResult : Option R := none
  providerMessages : Option M := none
  system : Option String := none
  metadata : Metadata V := []
  deriving DecidableEq

theorem zero_sleep : (0 : ℚ) ≤ 0 := le_rfl

theorem action_of_none {M R V : Type} {action : MiddlewareAction}
    (h : (none : Option (MiddlewareTransform M R V)) ≠ none) : action = .continue := absurd rfl h

structure MiddlewareDecision (M R V : Type) where
  action : MiddlewareAction := .continue
  reason : Option String := none
  sleepSeconds : ℚ := 0
  metadata : Metadata V := []
  transform : Option (MiddlewareTransform M R V) := none
  sleepSeconds_nonneg : 0 ≤ sleepSeconds := by exact zero_sleep
  transform_continue : transform ≠ none → action = .continue := by first | exact action_of_none | simp

structure MiddlewareContext (C M R : Type) where
  facts : C
  providerMessages : M
  system : Option String
  toolResult : Option R
  deriving DecidableEq

inductive HookError where
  | failureRaised (text : String)
  | exception (typeName text : String)
  | baseException (typeName : String)
  deriving DecidableEq

/-- A middleware: its hooks, and whether an error of theirs ends the run. -/
structure AgentMiddleware (W C M R V : Type) where
  middlewareName : String
  failClosed : Bool := true
  call : MiddlewareHook → MiddlewareContext C M R → W →
    Except HookError (Option (MiddlewareDecision M R V)) × W

structure MiddlewareEvent (V : Type) where
  middlewareName : String
  hook : MiddlewareHook
  action : MiddlewareAction
  reason : Option String
  metadata : Metadata V
  deriving DecidableEq

structure MiddlewareHookInvocation (V : Type) where
  middlewareName : String
  hook : MiddlewareHook
  action : MiddlewareAction
  durationSeconds : ℚ
  reason : Option String
  metadata : Metadata V
  errorType : Option String
  deriving DecidableEq

structure HookCall (W C M R V : Type) where
  middleware : AgentMiddleware W C M R V
  context : MiddlewareContext C M R
  outcome : Except HookError (MiddlewareDecision M R V)

/-- The state of a pipeline. The source keeps no list of calls. -/
structure PipelineRun (W C M R V : Type) where
  world : W
  events : List (MiddlewareEvent V) := []
  hookInvocations : List (MiddlewareHookInvocation V) := []
  calls : List (HookCall W C M R V) := []

structure PipelineClock (W : Type) where
  clock : W → ℚ × W
  sleeper : ℚ → W → Option HookError × W

variable {W C M R V : Type}

/-! ### Decisions and transforms -/

/-- `MiddlewareDecision.continue_`. -/
def MiddlewareDecision.continueWith (metadata : Metadata V)
    (transform : Option (MiddlewareTransform M R V)) : MiddlewareDecision M R V :=
  { metadata := metadata, transform := transform, transform_continue := fun _ => rfl }

/-- `_apply_transform`: the context the next middleware sees. -/
def applyTransform (ctx : MiddlewareContext C M R) :
    Option (MiddlewareTransform M R V) → MiddlewareContext C M R
  | none => ctx
  | some transform =>
    { ctx with
      providerMessages := transform.providerMessages.getD ctx.providerMessages
      system := transform.system.or ctx.system
      toolResult := transform.modelVisibleToolResult.or ctx.toolResult }

/-- `_merge_transforms`: later middleware override earlier fields. -/
def mergeTransforms :
    Option (MiddlewareTransform M R V) → Option (MiddlewareTransform M R V) →
      Option (MiddlewareTransform M R V)
  | none, next => next
  | some current, none => some current
  | some current, some next => some
    { modelVisibleToolResult := next.modelVisibleToolResult.or current.modelVisibleToolResult
      providerMessages := next.providerMessages.or current.providerMessages
      system := next.system.or current.system
      metadata := mergeMetadata current.metadata next.metadata }

/-- `_merge_continue_decisions`. -/
def mergeContinueDecisions (current next : MiddlewareDecision M R V) : MiddlewareDecision M R V :=
  .continueWith (mergeMetadata current.metadata next.metadata)
    (mergeTransforms current.transform next.transform)

namespace AgentMiddleware

variable (middleware : AgentMiddleware W C M R V)

/-- The decision `_exception_decision` makes of an exception. -/
def exceptionDecision (typeName text : String) : MiddlewareDecision M R V :=
  let metadata := [("error_type", .text typeName), ("error", .text text)]
  if middleware.failClosed then
    { action := .abortRun, reason := some "middleware_error", metadata := metadata }
  else { action := .continue, reason := some "middleware_error_fail_open", metadata := metadata }

/-- The decision on a hook's reply: nothing is to continue, an exception is decided on, and what must
reach the caller is raised. -/
def decisionOn : Except HookError (Option (MiddlewareDecision M R V)) →
    Except HookError (MiddlewareDecision M R V)
  | .ok reply => .ok (reply.getD (.continueWith [] none))
  | .error (.exception typeName text) => .ok (middleware.exceptionDecision typeName text)
  | .error e => .error e

/-- The event `_exception_decision` records: a middleware that fails open leaves one. -/
def failOpenEvents (hook : MiddlewareHook) :
    Except HookError (Option (MiddlewareDecision M R V)) → List (MiddlewareEvent V)
  | .error (.exception typeName text) =>
    if middleware.failClosed then []
    else [⟨middleware.middlewareName, hook, .continue, some "middleware_error_fail_open",
      [("error_type", .text typeName), ("error", .text text)]⟩]
  | _ => []

end AgentMiddleware

/-- `error_type` of an invocation record. -/
def errorTypeOf : Except HookError (Option (MiddlewareDecision M R V)) → Option String
  | .error (.exception typeName _) => some typeName
  | _ => none

namespace PipelineRun

variable (run : PipelineRun W C M R V)

/-- `_record`. -/
def record (middleware : AgentMiddleware W C M R V) (hook : MiddlewareHook)
    (decision : MiddlewareDecision M R V) : PipelineRun W C M R V :=
  { run with events := run.events ++
      [⟨middleware.middlewareName, hook, decision.action, decision.reason, decision.metadata⟩] }

/-- `_record_hook_invocation`; the text of an exception is left out. -/
def recordHookInvocation (middleware : AgentMiddleware W C M R V) (hook : MiddlewareHook)
    (decision : MiddlewareDecision M R V) (durationSeconds : ℚ) (errorType : Option String) :
    PipelineRun W C M R V :=
  { run with hookInvocations := run.hookInvocations ++
      [⟨middleware.middlewareName, hook, decision.action, durationSeconds, decision.reason,
        decision.metadata.filter fun row => row.1 ≠ "error", errorType⟩] }

def called (middleware : AgentMiddleware W C M R V) (context : MiddlewareContext C M R)
    (outcome : Except HookError (MiddlewareDecision M R V)) : PipelineRun W C M R V :=
  { run with calls := run.calls ++ [⟨middleware, context, outcome⟩] }

end PipelineRun

/-- One hook call with its records: the decision, unless it raises. -/
def invokeHook (time : PipelineClock W) (hook : MiddlewareHook)
    (middleware : AgentMiddleware W C M R V) (ctx : MiddlewareContext C M R)
    (run : PipelineRun W C M R V) : Except HookError (MiddlewareDecision M R V) × PipelineRun W C M R V :=
  let (startedAt, world) := time.clock run.world
  let (reply, world) := middleware.call hook ctx world
  match middleware.decisionOn reply with
  | .error e => (.error e, { run with world := world })
  | .ok decision =>
    let (endedAt, world) := time.clock world
    let run := { run with world := world, events := run.events ++ middleware.failOpenEvents hook reply }
    (.ok decision,
      run.recordHookInvocation middleware hook decision (max 0 (endedAt - startedAt)) (errorTypeOf reply))

/-- The loop of `_run`: the decisions merged so far, and the context the next middleware sees. -/
def runHooks (time : PipelineClock W) (hook : MiddlewareHook) : List (AgentMiddleware W C M R V) →
    MiddlewareDecision M R V → MiddlewareContext C M R → PipelineRun W C M R V →
      Except HookError (MiddlewareDecision M R V) × PipelineRun W C M R V
  | [], aggregate, _, run => (.ok aggregate, run)
  | middleware :: rest, aggregate, ctx, run =>
    match invokeHook time hook middleware ctx run with
    | (.error e, run) => (.error e, run.called middleware ctx (.error e))
    | (.ok decision, run) =>
      match decision.action with
      | .continue =>
        runHooks time hook rest (mergeContinueDecisions aggregate decision)
          (applyTransform ctx decision.transform) (run.called middleware ctx (.ok decision))
      | .sleep =>
        let run := run.record middleware hook decision
        match time.sleeper decision.sleepSeconds run.world with
        | (some e, world) => (.error e, { run with world := world }.called middleware ctx (.error e))
        | (none, world) =>
          runHooks time hook rest aggregate ctx
            ({ run with world := world }.called middleware ctx (.ok decision))
      | _ => (.ok decision, (run.record middleware hook decision).called middleware ctx (.ok decision))

/-- `_run`. -/
def runPipeline (time : PipelineClock W) (middleware : List (AgentMiddleware W C M R V))
    (hook : MiddlewareHook) (ctx : MiddlewareContext C M R) (run : PipelineRun W C M R V) :
    Except HookError (MiddlewareDecision M R V) × PipelineRun W C M R V :=
  runHooks time hook middleware (.continueWith [] none) ctx run

end VidbyteSdk.Middleware
