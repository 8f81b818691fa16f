import VidbyteSdk.Registries.ProviderKeys

/-!
# Semantic trace controllers

`TraceController` shows a backend the spans that a profile allows, and keeps the open spans of an execution context on a
stack; `SessionTraceController` adds a session root to it, and `SessionTracer` is the wrapper without a profile.

An object is known by a number: a semantic context by its place among the contexts that were made, a context of the
backend by the call that gave it. What the spans carry, and what their ends report, is left out.
-/

namespace VidbyteSdk.Trace

open Registries (startsWith)

/-! ### Specs and profiles -/

inductive TraceDetail where
  | minimal
  | standard
  | verbose
  | diagnostic
  deriving DecidableEq

inductive SpanKind where
  | chain
  | llm
  | tool
  | retriever
  | embedding
  | prompt
  | parser
  deriving DecidableEq

inductive ParentPolicy where
  | explicit
  | current
  | agent
  | runtimeIteration
  | aggregate
  | session
  | root
  deriving DecidableEq

structure SpanSpec where
  name : String
  kind : SpanKind
  component : String
  detail : TraceDetail
  parentPolicy : ParentPolicy
  deriving DecidableEq

/-- `_DETAIL_ORDER` -/
def TraceDetail.order : TraceDetail → ℕ
  | minimal => 0
  | standard => 1
  | verbose => 2
  | diagnostic => 3

/-- What a profile can say of a component: a flag, or one of `_SETTING_VALUES`. -/
inductive ComponentSetting where
  | flag (on : Bool)
  | off
  | minimal
  | default
  | summary
  | decisionsOnly
  | inputsOutputs
  | verbose
  | diagnostic
  deriving DecidableEq

structure TraceProfile where
  detail : TraceDetail
  components : List (String × ComponentSetting)
  deriving DecidableEq

/-- `_COMPONENTS` -/
def componentNames : List String :=
  ["agents", "aggregate", "multi_agent", "runtimes", "actor", "search", "context", "algorithms", "middleware", "tools",
    "parsers", "retrievers", "embeddings", "sessions", "core"]

/-- `TraceProfile.default()`, with `_base_components("default")`. -/
def TraceProfile.default : TraceProfile :=
  { detail := .standard, components := componentNames.map fun component => (component, .default) }

def TraceProfile.allows (profile : TraceProfile) (spec : SpanSpec) : Bool :=
  match (profile.components.lookup spec.component).getD (.flag true) with
  | .flag false | .off => false
  | .flag true => decide (spec.detail.order ≤ profile.detail.order)
  | .minimal => decide (spec.detail = .minimal)
  | .decisionsOnly => spec.name = "middleware.decision" || decide (spec.detail.order ≤ TraceDetail.standard.order)
  | .default | .summary | .inputsOutputs => decide (spec.detail.order ≤ TraceDetail.standard.order)
  | .verbose => decide (spec.detail.order ≤ TraceDetail.verbose.order)
  | .diagnostic => true

/-- `_spec_from_name` -/
def specFromName (name : String) (root : Bool) : SpanSpec :=
  let policy := if root then .root else .current
  let spec (kind : SpanKind) (component : String) (detail : TraceDetail) : SpanSpec :=
    { name, kind, component, detail, parentPolicy := policy }
  if startsWith name "llm." then spec .llm "agents" .minimal
  else if startsWith name "tool." then spec .tool "tools" .minimal
  else if startsWith name "parser." then spec .parser "parsers" .standard
  else if startsWith name "context." then spec .prompt "context" .verbose
  else if startsWith name "algorithm." then spec .chain "algorithms" .verbose
  -- the second part of the name
  else if startsWith name "runtime.search." then spec .chain "search" .verbose
  else if startsWith name "runtime.actor." then spec .chain "actor" .verbose
  else if startsWith name "runtime." then spec .chain "runtimes" .verbose
  else if startsWith name "middleware." then
    spec .chain "middleware" (if name = "middleware.hook" then .diagnostic else .verbose)
  else if startsWith name "aggregate." then spec .chain "aggregate" .verbose
  else if startsWith name "multi_agent." then
    spec .chain "multi_agent" (if name = "multi_agent.ledger_update" then .verbose else .standard)
  else if startsWith name "session." then spec .chain "sessions" .standard
  else if startsWith name "agent." then
    spec .chain "agents" (if name = "agent.run" then .minimal else .standard)
  else spec .chain "core" .minimal

@[simp] theorem specFromName_parentPolicy (name : String) (root : Bool) :
    (specFromName name root).parentPolicy = if root then .root else .current := by
  simp only [specFromName, apply_ite SpanSpec.parentPolicy, ite_self]

/-! ### The backend -/

/-- The calls that a tracer receives, a start with the context that it gives back. An end without a context is one of a
new, blank context. -/
inductive TracerCall where
  | startTrace (name : String) (context : ℕ)
  | startSpan (name : String) (parent : Option ℕ) (context : ℕ)
  | endTrace (context : Option ℕ)
  | endSpan (context : Option ℕ)
  deriving DecidableEq

def TracerCall.context : TracerCall → Option ℕ
  | startTrace _ context | startSpan _ _ context => some context
  | endTrace context | endSpan context => context

def TracerCall.isStart : TracerCall → Bool
  | startTrace _ _ | startSpan _ _ _ => true
  | endTrace _ | endSpan _ => false

def TracerCall.isTrace : TracerCall → Bool
  | startTrace _ _ | endTrace _ => true
  | startSpan _ _ _ | endSpan _ => false

/-! ### `TraceController` -/

structure SemanticSpanContext where
  place : ℕ
  providerContext : Option ℕ
  spec : SpanSpec
  suppressed : Bool
  asTrace : Bool
  deriving DecidableEq

/-- A context that a caller passes: one of the controller, or one of the backend. -/
inductive SpanContext where
  | semantic (context : SemanticSpanContext)
  | provider (context : ℕ)
  deriving DecidableEq

/-- What there is in an execution context: the open spans, the innermost last, the number of contexts made so far, the
session root, and the calls that the backend has received. -/
structure TraceState where
  stack : List SemanticSpanContext
  made : ℕ
  sessionRoot : Option SemanticSpanContext
  calls : List TracerCall
  deriving DecidableEq

def TraceState.empty : TraceState := { stack := [], made := 0, sessionRoot := none, calls := [] }

structure TraceController where
  profile : TraceProfile
  /-- The name in `translate_start`. -/
  translateStart : SpanSpec → String

def SemanticSpanContext.live (context : SemanticSpanContext) : Option ℕ :=
  if context.suppressed then none else context.providerContext

/-- `reversed(stack[:cut])` -/
def below (context : SemanticSpanContext) (stack : List SemanticSpanContext) : List SemanticSpanContext :=
  match stack.reverse.dropWhile (·.place != context.place) with
  | [] => stack.reverse
  | _ :: older => older

/-- `_provider_parent` -/
def providerParent (explicit : Option SpanContext) (policy : ParentPolicy) (stack : List SemanticSpanContext) :
    Option ℕ :=
  match explicit with
  | some (.provider context) => some context
  | some (.semantic context) =>
    match context.providerContext with
    | some providerContext => some providerContext
    | none => (below context stack).findSome? (·.live)
  | none => if policy = .root then none else stack.reverse.findSome? (·.live)

/-- `_has_active_provider_parent` -/
def hasActiveProviderParent (stack : List SemanticSpanContext) : Bool := stack.any (·.live.isSome)

/-- `_pop_context`: the last context of the stack that is this object goes. -/
def popContext (context : SemanticSpanContext) (state : TraceState) : TraceState :=
  { state with stack := (state.stack.reverse.eraseP (·.place == context.place)).reverse }

/-- `_push_context` -/
def pushContext (context : SemanticSpanContext) (state : TraceState) : SemanticSpanContext × TraceState :=
  (context, { state with stack := state.stack ++ [context], made := state.made + 1 })

namespace TraceController

variable (controller : TraceController)

def openSpan (spec : SpanSpec) (parent : Option SpanContext) (asTrace : Bool) (state : TraceState) :
    SemanticSpanContext × TraceState :=
  if !controller.profile.allows spec then
    pushContext { place := state.made, providerContext := none, spec, suppressed := true, asTrace } state
  else
    let name := controller.translateStart spec
    let providerContext := state.calls.length
    let call :=
      if asTrace then TracerCall.startTrace name providerContext
      else .startSpan name (providerParent parent spec.parentPolicy state.stack) providerContext
    pushContext { place := state.made, providerContext := some providerContext, spec, suppressed := false, asTrace }
      { state with calls := state.calls ++ [call] }

def startTrace (name : String) (state : TraceState) : SemanticSpanContext × TraceState :=
  if name = "agent.run" && hasActiveProviderParent state.stack then
    openSpan controller (specFromName name false) none false state
  else openSpan controller (specFromName name true) none true state

def startSpan (name : String) (parent : Option SpanContext) (state : TraceState) : SemanticSpanContext × TraceState :=
  openSpan controller (specFromName name false) parent false state

end TraceController

def endTrace (context : SpanContext) (state : TraceState) : TraceState :=
  match context with
  | .provider _ => state
  | .semantic context =>
    if context.suppressed then popContext context state
    else
      let call := if context.asTrace then TracerCall.endTrace context.providerContext
        else .endSpan context.providerContext
      popContext context { state with calls := state.calls ++ [call] }

def endSpan (context : SpanContext) (state : TraceState) : TraceState :=
  match context with
  | .provider _ => state
  | .semantic context =>
    if context.suppressed then popContext context state
    else popContext context { state with calls := state.calls ++ [.endSpan context.providerContext] }

/-! ### `SessionTraceController` -/

/-- `_live_root` -/
def liveRoot (state : TraceState) : Option SemanticSpanContext :=
  state.sessionRoot.filter fun root => !root.suppressed

namespace SessionTraceController

variable (controller : TraceController) (defaultName : String)

/-- The spec in `begin_session`. -/
def rootSpec (name : Option String) : SpanSpec :=
  { name := (name.filter (· ≠ "")).getD defaultName, kind := .chain, component := "sessions", detail := .standard,
    parentPolicy := .root }

/-- `begin_session`, which raises where a session is active. -/
def beginSession (name : Option String) (state : TraceState) : Option (SemanticSpanContext × TraceState) :=
  match state.sessionRoot with
  | some _ => none
  | none =>
    let (root, state) := controller.openSpan (rootSpec defaultName name) none true state
    some (root, { state with sessionRoot := some root })

def endSession (state : TraceState) : TraceState :=
  match state.sessionRoot with
  | none => state
  | some root => { endTrace (.semantic root) state with sessionRoot := none }

def startTrace (name : String) (state : TraceState) : SemanticSpanContext × TraceState :=
  if (liveRoot state).isSome && name = "agent.run" then controller.startSpan name none state
  else controller.startTrace name state

end SessionTraceController

/-! ### `SessionTracer` -/

namespace SessionTracer

/-- The session root of an execution context, and the calls that the inner tracer has received. -/
structure State where
  root : Option ℕ
  calls : List TracerCall
  deriving DecidableEq

def State.empty : State := { root := none, calls := [] }

def startInner (call : ℕ → TracerCall) (state : State) : ℕ × State :=
  (state.calls.length, { state with calls := state.calls ++ [call state.calls.length] })

/-- `begin_session`, which raises where a session is active. -/
def beginSession (defaultName : String) (name : Option String) (state : State) : Option (ℕ × State) :=
  match state.root with
  | some _ => none
  | none =>
    let (root, state) := startInner (.startTrace ((name.filter (· ≠ "")).getD defaultName)) state
    some (root, { state with root := some root })

def endSession (state : State) : State :=
  match state.root with
  | none => state
  | some root => { root := none, calls := state.calls ++ [.endTrace (some root)] }

def startTrace (name : String) (state : State) : ℕ × State :=
  match state.root with
  | none => startInner (.startTrace name) state
  | some root => startInner (.startSpan name (some root)) state

def endTrace (context : ℕ) (state : State) : State :=
  match state.root with
  | none => { state with calls := state.calls ++ [.endTrace (some context)] }
  | some root =>
    if context = root then endSession state
    else { state with calls := state.calls ++ [.endSpan (some context)] }

def startSpan (name : String) (parent : Option ℕ) (state : State) : ℕ × State :=
  startInner (.startSpan name (parent <|> state.root)) state

def endSpan (context : ℕ) (state : State) : State :=
  { state with calls := state.calls ++ [.endSpan (some context)] }

end SessionTracer

end VidbyteSdk.Trace
