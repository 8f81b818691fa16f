import Mathlib.Data.PNat.Basic
import Mathlib.Tactic.Linarith

/-!
# The circuit breaker

`CircuitBreakerMiddleware` of `middleware/builtins/circuit_breaker.py`. Its hooks run under one lock, so
an interleaving of concurrent runs is a list of hook calls. Each brings the values the clock had when it
was read; times are rationals.
-/

namespace VidbyteSdk.Middleware

inductive CircuitState where
  | closed | «open» | halfOpen
  deriving DecidableEq

/-- The settings of a breaker, as its constructor admits them. -/
structure CircuitBreaker where
  failureThreshold : ℕ+
  windowSeconds : ℚ
  recoveryTimeout : ℚ
  halfOpenMaxCalls : ℕ+
  windowSeconds_pos : 0 < windowSeconds
  recoveryTimeout_pos : 0 < recoveryTimeout

structure Circuit where
  state : CircuitState := .closed
  errorTimestamps : List ℚ := []
  openedAt : Option ℚ := none
  halfOpenCalls : Nat := 0
  halfOpenStartedAt : Option ℚ := none
  deriving DecidableEq

inductive Decision where
  | «continue»
  | abort (reason : String)
  deriving DecidableEq

namespace Circuit

variable (breaker : CircuitBreaker)

/-- The moment lies at least `recovery_timeout` back; an unset one does not. -/
def elapsed (since : Option ℚ) (now : ℚ) : Bool :=
  match since with
  | none => false
  | some start => breaker.recoveryTimeout ≤ now - start

/-- `_handle_open_state`. -/
def handleOpenState (circuit : Circuit) (now : ℚ) : Decision × Circuit :=
  if elapsed breaker circuit.openedAt now then
    (.continue, { circuit with state := .halfOpen, halfOpenCalls := 1, halfOpenStartedAt := some now })
  else (.abort "circuit_open", circuit)

/-- `_handle_half_open_state`. -/
def handleHalfOpenState (circuit : Circuit) (now : ℚ) : Decision × Circuit :=
  let full := (breaker.halfOpenMaxCalls : Nat) ≤ circuit.halfOpenCalls
  if full ∧ elapsed breaker circuit.halfOpenStartedAt now then
    (.continue, { circuit with halfOpenCalls := 1, halfOpenStartedAt := some now })
  else if full then (.abort "circuit_half_open_limit", circuit)
  else (.continue, { circuit with halfOpenCalls := circuit.halfOpenCalls + 1 })

/-- `before_model_call`. -/
def beforeModelCall (circuit : Circuit) (now : ℚ) : Decision × Circuit :=
  match circuit.state with
  | .closed => (.continue, circuit)
  | .open => circuit.handleOpenState breaker now
  | .halfOpen => circuit.handleHalfOpenState breaker now

/-- `_transition_to_closed`. -/
def transitionToClosed (circuit : Circuit) : Circuit :=
  { circuit with
    state := .closed, errorTimestamps := [], openedAt := none, halfOpenCalls := 0
    halfOpenStartedAt := none }

/-- `_transition_to_open`. -/
def transitionToOpen (circuit : Circuit) (now : ℚ) : Circuit :=
  { circuit with state := .open, openedAt := some now, halfOpenStartedAt := none }

/-- `after_model_response`. -/
def afterModelResponse (circuit : Circuit) : Circuit :=
  if circuit.state = .halfOpen then circuit.transitionToClosed else circuit

/-- `_prune_error_window`. -/
def pruneErrorWindow (timestamps : List ℚ) (now : ℚ) : List ℚ :=
  timestamps.filter fun t => now - breaker.windowSeconds < t

/-- `_record_error_and_maybe_open`; `later` is the clock's value when the circuit opens. -/
def recordErrorAndMaybeOpen (circuit : Circuit) (now later : ℚ) : Circuit :=
  let timestamps := pruneErrorWindow breaker (circuit.errorTimestamps ++ [now]) now
  let recorded := { circuit with errorTimestamps := timestamps }
  if (breaker.failureThreshold : Nat) ≤ timestamps.length then recorded.transitionToOpen later
  else recorded

/-- `on_model_error`. -/
def onModelError (circuit : Circuit) (now later : ℚ) : Circuit :=
  match circuit.state with
  | .halfOpen => circuit.transitionToOpen later
  | .closed => circuit.recordErrorAndMaybeOpen breaker now later
  | .open => circuit

end Circuit

/-! ### Runs -/

inductive Event where
  | beforeModelCall (call : Nat) (now : ℚ)
  | afterModelResponse (call : Nat)
  | onModelError (call : Nat) (now later : ℚ)
  deriving DecidableEq

/-- The clock does not go back. -/
def Ordered (clock : ℚ) : List Event → Prop
  | [] => True
  | .beforeModelCall _ now :: events => clock ≤ now ∧ Ordered now events
  | .afterModelResponse _ :: events => Ordered clock events
  | .onModelError _ now later :: events => clock ≤ now ∧ now ≤ later ∧ Ordered later events

/-- The circuit with what happened to it: the last value of the clock, when it last opened, the errors
reported since it last closed, and the probes that are neither resolved nor dropped, each with the moment
it was admitted. A probe is a call that is admitted while the circuit is half open, or half opens it. -/
structure BreakerRun where
  circuit : Circuit := {}
  clock : ℚ
  openedAt : ℚ := 0
  errors : List ℚ := []
  probes : List (Nat × ℚ) := []
  deriving DecidableEq

namespace BreakerRun

variable (breaker : CircuitBreaker)

def decision (run : BreakerRun) (now : ℚ) : Decision :=
  (run.circuit.beforeModelCall breaker now).1

def unresolved (run : BreakerRun) (call : Nat) : List (Nat × ℚ) :=
  run.probes.filter fun probe => probe.1 ≠ call

def step (run : BreakerRun) : Event → BreakerRun
  | .beforeModelCall call now =>
    let (decision, circuit) := run.circuit.beforeModelCall breaker now
    { run with
      circuit := circuit
      clock := now
      probes := if decision = .continue ∧ circuit.state = .halfOpen then run.probes ++ [(call, now)]
        else run.probes }
  | .afterModelResponse call =>
    let circuit := run.circuit.afterModelResponse
    { run with
      circuit := circuit
      errors := if run.circuit.state = .halfOpen then [] else run.errors
      probes := run.unresolved call }
  | .onModelError call now later =>
    let circuit := run.circuit.onModelError breaker now later
    { run with
      circuit := circuit
      clock := later
      openedAt := if run.circuit.state ≠ .open ∧ circuit.state = .open then later else run.openedAt
      errors := run.errors ++ [now]
      probes := run.unresolved call }

def steps (run : BreakerRun) (events : List Event) : BreakerRun := events.foldl (step breaker) run

end BreakerRun

end VidbyteSdk.Middleware
