import VidbyteSdk.Trace.Controllers
import VidbyteSdk.Lib.Lineage
import VidbyteSdk.Lib.Runs

/-!
# The trace forest in every run

A run of a controller keeps, beside what the code keeps, the forest of its calls: every span under its explicit parent,
or under the innermost open span, or as a root. The backend sees one start and one end of every allowed span. It sees
the right parent of it as long as no other allowed span stands between a suppressed parent and the nearest allowed
ancestor of that: the code walks down the stack, where it should go up the forest.
-/

namespace VidbyteSdk.Trace

open Lib

/-! ### Runs of a controller -/

/-- Which call opened a span, and so which call ends it. -/
inductive Opening where
  | trace
  | span
  | session
  deriving DecidableEq

structure Span where
  context : SemanticSpanContext
  parent : Option ℕ
  opening : Opening
  deriving DecidableEq

abbrev Span.place (span : Span) : ℕ := span.context.place

structure World where
  state : TraceState
  forest : List Span
  ended : List ℕ
  deriving DecidableEq

namespace World

def start : World := { state := .empty, forest := [], ended := [] }

variable (w : World)

def openSpans : List Span := w.forest.filter fun span => span.place ∉ w.ended

def openAt (i : ℕ) : Option Span := w.openSpans.find? (·.place == i)

def childless (i : ℕ) : Bool := w.openSpans.all (·.parent != some i)

/-- Where a new span hangs: under its explicit parent, else nowhere if it is to be a root, else under the innermost open
span. -/
def parentOf (explicit : Option ℕ) (policy : ParentPolicy) : Option ℕ :=
  match explicit with
  | some i => some i
  | none => if policy = .root then none else w.openSpans.head?.map (·.place)

def explicit : Option ℕ → Option (Option SpanContext)
  | none => some none
  | some i => (w.openAt i).map fun span => some (.semantic span.context)

def opened (explicit : Option ℕ) (opening : Opening) (result : SemanticSpanContext × TraceState) : World :=
  { state := result.2
    forest := { context := result.1, parent := w.parentOf explicit result.1.spec.parentPolicy, opening } :: w.forest
    ended := w.ended }

def closed (i : ℕ) (state : TraceState) : World := { state, forest := w.forest, ended := i :: w.ended }

end World

inductive ControllerClass where
  | traceController
  | sessionTraceController
  deriving DecidableEq

inductive TraceEvent where
  | startTrace (name : String)
  | startSpan (name : String) (parent : Option ℕ)
  | openSpan (spec : SpanSpec) (parent : Option ℕ) (asTrace : Bool)
  | endSpan (i : ℕ)
  | endTrace (i : ℕ)
  | beginSession (name : Option String)
  | endSession
  deriving DecidableEq

section

variable (cls : ControllerClass) (controller : TraceController) (defaultName : String)

def startTraceOf : String → TraceState → SemanticSpanContext × TraceState :=
  match cls with
  | .traceController => controller.startTrace
  | .sessionTraceController => SessionTraceController.startTrace controller

/-- A call in a properly nested sequence: a span is ended by the call that matches its start, once nothing that was
opened under it is open. That the innermost span ends first is a special case. -/
def traceStep (w : World) : TraceEvent → Option World
  | .startTrace name => some (w.opened none .trace (startTraceOf cls controller name w.state))
  | .startSpan name parent =>
    (w.explicit parent).map fun p => w.opened parent .span (controller.startSpan name p w.state)
  | .openSpan spec parent asTrace =>
    (w.explicit parent).map fun p =>
      w.opened parent (if asTrace then .trace else .span) (controller.openSpan spec p asTrace w.state)
  | .endSpan i =>
    (w.openAt i).bind fun span =>
      if span.opening = .span ∧ w.childless i then some (w.closed i (endSpan (.semantic span.context) w.state))
      else none
  | .endTrace i =>
    (w.openAt i).bind fun span =>
      if span.opening = .trace ∧ w.childless i then some (w.closed i (endTrace (.semantic span.context) w.state))
      else none
  | .beginSession name =>
    match cls with
    | .traceController => none
    | .sessionTraceController =>
      match SessionTraceController.beginSession controller defaultName name w.state with
      | none => some w
      | some result => some (w.opened none .session result)
  | .endSession =>
    match cls with
    | .traceController => none
    | .sessionTraceController =>
      match w.state.sessionRoot with
      | none => some { w with state := SessionTraceController.endSession w.state }
      | some root =>
        if w.childless root.place then some (w.closed root.place (SessionTraceController.endSession w.state)) else none

/-! ### What the backend is to see -/

abbrev Span.allowed (span : Span) : Bool := controller.profile.allows span.context.spec

abbrev nearestAllowed (forest : List Span) (place : Option ℕ) : Option Span :=
  nearest Span.place Span.parent (Span.allowed controller) forest place

def parentContext (forest : List Span) (place : Option ℕ) : Option ℕ :=
  (nearestAllowed controller forest place).bind (·.context.providerContext)

def startCall (forest : List Span) (span : Span) (context : ℕ) : TracerCall :=
  if span.context.asTrace then .startTrace (controller.translateStart span.context.spec) context
  else .startSpan (controller.translateStart span.context.spec) (parentContext controller forest span.parent) context

def endCall (span : Span) (context : ℕ) : TracerCall :=
  if span.context.asTrace then .endTrace (some context) else .endSpan (some context)

def callsOf (w : World) (span : Span) (context : ℕ) : List TracerCall :=
  startCall controller w.forest span context :: if span.place ∈ w.ended then [endCall span context] else []

/-- The backend sees every allowed span, under its nearest allowed ancestor, and nothing else. -/
structure Traced (w : World) : Prop where
  shown : ∀ span ∈ w.forest, span.allowed controller = true → ∃ context, span.context.providerContext = some context ∧
    w.state.calls.filter (·.context = some context) = callsOf controller w span context
  hidden : ∀ span ∈ w.forest, span.allowed controller = false → span.context.providerContext = none
  only : ∀ call ∈ w.state.calls, ∃ span ∈ w.forest, span.allowed controller = true ∧
    call.context = span.context.providerContext
  distinct : ∀ span ∈ w.forest, ∀ other ∈ w.forest, ∀ context, span.context.providerContext = some context →
    other.context.providerContext = some context → span = other

/-! ### The condition -/

/-- What a call asks `open_span` for. -/
structure OpenRequest where
  spec : SpanSpec
  parent : Option ℕ
  asTrace : Bool
  opening : Opening
  deriving DecidableEq

/-- The start of an agent run becomes a span of the run that it is nested in, or of the session. -/
def becomesSpan (state : TraceState) (name : String) : Bool :=
  name = "agent.run" &&
    (hasActiveProviderParent state.stack || cls = .sessionTraceController && (liveRoot state).isSome)

def request (w : World) : TraceEvent → Option OpenRequest
  | .startTrace name =>
    let nested := becomesSpan cls w.state name
    some { spec := specFromName name !nested, parent := none, asTrace := !nested, opening := .trace }
  | .startSpan name parent => some { spec := specFromName name false, parent, asTrace := false, opening := .span }
  | .openSpan spec parent asTrace => some { spec, parent, asTrace, opening := if asTrace then .trace else .span }
  | .beginSession name =>
    if w.state.sessionRoot.isSome then none
    else
      some { spec := SessionTraceController.rootSpec defaultName name, parent := none, asTrace := true
             opening := .session }
  | .endSpan _ | .endTrace _ | .endSession => none

/-- No allowed span that is open was opened after the nearest allowed ancestor of a place and up to that place. -/
def Unshadowed (w : World) (i : ℕ) : Prop :=
  ∀ span ∈ w.openSpans, span.allowed controller = true → span.place ≤ i →
    ∃ ancestor ∈ nearestAllowed controller w.forest (some i), span.place ≤ ancestor.place

instance (w : World) (i : ℕ) : Decidable (Unshadowed controller w i) :=
  inferInstanceAs (Decidable (∀ span ∈ w.openSpans, _))

/-- Where a call opens an allowed child span, the parent of the span is not shadowed. -/
def ParentUnshadowed (w : World) (event : TraceEvent) : Prop :=
  ∀ asked ∈ request cls defaultName w event, asked.asTrace = false → controller.profile.allows asked.spec = true →
    ∀ i ∈ w.parentOf asked.parent asked.spec.parentPolicy, Unshadowed controller w i

instance (w : World) (event : TraceEvent) : Decidable (ParentUnshadowed cls controller defaultName w event) :=
  inferInstanceAs (Decidable (∀ asked ∈ request cls defaultName w event, _))

end

/-! ### Runs of a session tracer -/

namespace SessionTracer

/-- A context that a caller has been given: by which call, and whether a session was active then. -/
structure Given where
  context : ℕ
  opening : Opening
  inSession : Bool
  deriving DecidableEq

structure SessionWorld where
  state : State
  given : List Given
  deriving DecidableEq

namespace SessionWorld

def start : SessionWorld := { state := .empty, given := [] }

variable (w : SessionWorld)

def inSession : Bool := w.state.root.isSome

def gives (opening : Opening) (result : ℕ × State) : SessionWorld :=
  { state := result.2, given := { context := result.1, opening, inSession := w.inSession } :: w.given }

end SessionWorld

inductive SessionEvent where
  | beginSession (name : Option String)
  | endSession
  | startTrace (name : String)
  | endTrace (context : ℕ)
  | startSpan (name : String) (parent : Option ℕ)
  | endSpan (context : ℕ)
  deriving DecidableEq

/-- A call in any order, an end with a context that a start of the same kind has given. -/
def sessionStep (defaultName : String) (w : SessionWorld) : SessionEvent → Option SessionWorld
  | .beginSession name =>
    match beginSession defaultName name w.state with
    | none => some w
    | some result => some (w.gives .session result)
  | .endSession => some { w with state := endSession w.state }
  | .startTrace name => some (w.gives .trace (startTrace name w.state))
  | .endTrace context =>
    if ∃ given ∈ w.given, given.context = context ∧ given.opening ≠ .span then
      some { w with state := endTrace context w.state }
    else none
  | .startSpan name parent => some (w.gives .span (startSpan name parent w.state))
  | .endSpan context =>
    if ∃ given ∈ w.given, given.context = context ∧ given.opening = .span then
      some { w with state := endSpan context w.state }
    else none

structure ModesMatch (calls : List TracerCall) : Prop where
  opened : ∀ finish ∈ calls, finish.isStart = false →
    ∃ start ∈ calls, start.isStart = true ∧ start.context = finish.context
  mode : ∀ start ∈ calls, ∀ finish ∈ calls, start.isStart = true → finish.isStart = false →
    start.context = finish.context → start.isTrace = finish.isTrace

/-- Where a context other than the session root is ended as a trace, a session is active if and only if one was when the
context was given. -/
def SameSession (w : SessionWorld) : SessionEvent → Prop
  | .endTrace context =>
    w.state.root ≠ some context → ∀ given ∈ w.given, given.context = context → given.inSession = w.inSession
  | .beginSession _ | .endSession | .startTrace _ | .startSpan _ _ | .endSpan _ => True

instance (w : SessionWorld) : (event : SessionEvent) → Decidable (SameSession w event)
  | .endTrace context =>
    inferInstanceAs (Decidable (w.state.root ≠ some context → ∀ given ∈ w.given, given.context = context → _))
  | .beginSession _ | .endSession | .startTrace _ | .startSpan _ _ | .endSpan _ => .isTrue trivial

end SessionTracer

end VidbyteSdk.Trace
