import VidbyteSdk.Agents.Loop.Runtime
import VidbyteSdk.Util.CredentialKeys

/-!
# The fallback chain of a run

The part of `AgentRuntime` that routes a run through the models of `AgentFallback`, from
`agents/runtime.py` and `agents/fallback.py`: the policy of the chain, the request with its retries
and its count of model calls, the switch, and the trials of one runtime, which go on with the model
the run switched to. Around a request stands the loop of `Agents.Loop.Runtime`, whose programs run on
their own part of the state.

Building the runner of a model is a callback, and so is what an outer algorithm does between two
trials. Tool schemas and spans are left out, and hooks do not write the reserved keys of the run state.
-/

namespace VidbyteSdk.Agents.Loop

open VidbyteSdk.Lib VidbyteSdk.Util Prog

/-! ### The policy -/

/-- `ToolsFormatter.wire_format` of `lib/tools/formatter.py`. -/
def ToolsFormatter.wireFormat (casing : Casing) (provider : String) : WireFormat :=
  if holds "openrouter" then .openai
  else if holds "anthropic" || holds "claude" then .anthropic
  else if holds "gemini" || holds "google" then .gemini
  else .openai
where
  holds (token : String) : Bool := decide (token.toList <:+: casing.lower provider.toList)

/-- `FallbackModel`, which rejects a blank provider or model. -/
structure FallbackModel where
  provider : String
  model : String
  provider_ne : isBlank provider = false
  model_ne : isBlank model = false

def FallbackModel.identity (m : FallbackModel) : String := s!"{m.provider}/{m.model}"

structure AttemptRecord where
  source : String
  target : String
  errorType : String
  deriving DecidableEq

/-- `AgentResult.metadata["fallback"]`, where the chain was used. -/
structure FallbackMetadata where
  attempts : List AttemptRecord
  finalModel : Option String
  contextReset : Bool
  deriving DecidableEq

/-- `AgentFallback`: the models, the primary first, and the test of an error against `fallback_on`. -/
structure AgentFallback where
  models : List FallbackModel
  models_ne : models ≠ []
  isModelError : Raised → Bool

namespace AgentFallback

variable (fallback : AgentFallback)

def advance (error : Raised) (index : Nat) : Option Nat :=
  if ¬fallback.isModelError error ∨ fallback.models.length ≤ index + 1 then none else some (index + 1)

def modelAt (index : Nat) : Except Raised FallbackModel :=
  match fallback.models[index]? with
  | none => .error (.exception "ConfigurationError")
  | some m => .ok m

def attemptRecord (index nextIndex : Nat) (error : Raised) : Except Raised AttemptRecord := do
  let source ← fallback.modelAt index
  let target ← fallback.modelAt nextIndex
  pure ⟨source.identity, target.identity, error.typeName⟩

end AgentFallback

/-- `result_metadata`. -/
def resultMetadata (attempts : List AttemptRecord) (contextReset : Bool) : FallbackMetadata :=
  ⟨attempts, attempts.getLast?.map (·.target), contextReset⟩

/-! ### The state of the chain -/

/-- A handle: its place among the handles of the run, which is its identity, the chain index its runner
was built for and its provider. -/
structure RunnerHandle where
  serial : Nat
  model : Nat
  provider : String
  deriving DecidableEq

/-- `FallbackTransform`; the messages are kept where the context is not reset. -/
structure FallbackTransform where
  index : Nat
  handle : RunnerHandle
  provider : String
  contextReset : Bool

/-- Where a run stands in its chain: `_fallback_progress`, and the variables of `_arun_once` it saves. -/
structure FallbackProgress where
  index : Nat := 0
  attempts : List AttemptRecord := []
  errors : List Raised := []
  contextReset : Bool := false
  deriving DecidableEq

/-- The keys of `run_state` the chain uses. -/
structure RunState where
  speedFallbackIndex : Option Nat := none
  modelCallCount : Option Nat := none
  resultMetadata : Option FallbackMetadata := none
  deriving DecidableEq

/-- A switch: the chain indices, the error, the count of model calls after it and whether it reset the
context. -/
structure Switch where
  source : Nat
  target : Nat
  error : Raised
  modelCallCount : Nat
  contextReset : Bool
  deriving DecidableEq

/-- What a run records of its models: the start of a trial, a request, an error that escaped the model
call and a switch. -/
inductive ChainEvent where
  | trial
  | request (model : Nat)
  | failed (error : Raised)
  | switch (switch : Switch)
  deriving DecidableEq

/-- The variables of `_arun_once` and of its runtime that the chain uses. The last two fields number the
handles and list the events so far. -/
structure Chain where
  handle : RunnerHandle
  provider : String
  progress : FallbackProgress := {}
  modelCallCount : Nat := 0
  runState : RunState := {}
  fallbackHandle : Option RunnerHandle := none
  fallbackProgress : FallbackProgress := {}
  handles : Nat := 1
  events : List ChainEvent := []

structure ChainRun (A T W : Type) where
  loop : LoopRun A T W
  chain : Chain

/-- How a run with a chain may end but for a result. -/
inductive ChainFailure where
  | raised (raised : Raised)
  | allModelsFailed (attempts : List AttemptRecord) (errors : List Raised)
  | outOfFuel
  deriving DecidableEq

abbrev ChainM (A T W α : Type) : Type := Prog (ChainRun A T W) ChainFailure α

/-- What surrounds a run with a chain: the surroundings of its loop, of which the requests and the chain
are these, the answers of each model, and the code that builds runners and that runs between trials. -/
structure ChainSurroundings (A T W : Type) where
  loop : Surroundings A T W
  casing : Casing
  fallback : Option AgentFallback
  invoke : RunnerHandle → Callback W (List (Entry A T)) (ModelReply A T)
  buildRunner : Callback W Nat Unit
  betweenTrials : Callback W Unit Unit

def ChainSurroundings.through {A T W : Type} (env : ChainSurroundings A T W) (handle : RunnerHandle) :
    Surroundings A T W :=
  { env.loop with invoke := env.invoke handle }

/-- A trial: what the caller gives `_arun_once`. -/
structure Trial (A T : Type) where
  callerMessages : List T
  tools : Catalog A
  pinModel : Bool := false

/-! ### Changes of the chain -/

def Chain.switched (c : Chain) (transition : FallbackTransform) (error : Raised) : Chain :=
  let modelCallCount := c.runState.modelCallCount.getD c.modelCallCount
  let progress : FallbackProgress :=
    { c.progress with
      index := transition.index
      contextReset := c.progress.contextReset || transition.contextReset }
  { c with
    handle := transition.handle
    provider := transition.provider
    progress := progress
    modelCallCount := modelCallCount
    runState :=
      { c.runState with
        resultMetadata := some (resultMetadata progress.attempts progress.contextReset) }
    fallbackHandle := some transition.handle
    fallbackProgress := progress
    events := c.events ++ [.switch
      ⟨c.handle.model, transition.handle.model, error, modelCallCount, transition.contextReset⟩] }

def LoopState.switched {A T : Type} (s : LoopState A T) (transition : FallbackTransform) (provider : WireFormat) :
    LoopState A T :=
  { s with
    provider := provider
    messages := if transition.contextReset then [] else s.messages
    fallbackIndex := transition.index }

/-- The chain at the start of a trial: a trial handed the model the run switched to counts on from that
switch and still reports it. -/
def Chain.begun (c : Chain) (hasFallback : Bool) (handle : RunnerHandle) : Chain :=
  let resumed := decide (c.fallbackHandle = some handle)
  let progress := if resumed then c.fallbackProgress else {}
  { c with
    handle := handle
    provider := handle.provider
    progress := progress
    modelCallCount := 0
    runState :=
      { resultMetadata :=
          if resumed && hasFallback then some (resultMetadata progress.attempts progress.contextReset)
          else none }
    events := c.events ++ [.trial] }

namespace ChainM

variable {A T W α : Type}

def onLoop (m : LoopM A T W α) : ChainM A T W α :=
  Prog.tryCatch (Prog.zoom (·.loop) (fun loop run => { run with loop := loop }) m) fun
    | .raised raised => Prog.throw (.raised raised)
    | .outOfFuel => Prog.throw .outOfFuel

def getChain : ChainM A T W Chain := do
  let run ← Prog.get
  pure run.chain

def modifyChain (change : Chain → Chain) : ChainM A T W Unit :=
  Prog.modify fun run => { run with chain := change run.chain }

def modifyRunState (change : RunState → RunState) : ChainM A T W Unit :=
  modifyChain fun c => { c with runState := change c.runState }

def modifyProgress (change : FallbackProgress → FallbackProgress) : ChainM A T W Unit :=
  modifyChain fun c => { c with progress := change c.progress }

def record (event : ChainEvent) : ChainM A T W Unit :=
  modifyChain fun c => { c with events := c.events ++ [event] }

def ofExcept : Except Raised α → ChainM A T W α
  | .ok a => pure a
  | .error raised => Prog.throw (.raised raised)

variable (env : ChainSurroundings A T W)

/-! ### The request -/

def request (handle : RunnerHandle) (conversation : List (Entry A T)) (modelCallCount : Nat) :
    ChainM A T W (Except Raised (ModelReply A T)) := do
  modifyRunState fun s => { s with modelCallCount := some modelCallCount }
  record (.request handle.model)
  onLoop (LoopM.request (env.through handle) conversation)

/-- A spent retry budget hands the error to the switch where the chain has a next model. -/
def routesOnward (error : Raised) : ChainM A T W Bool := do
  let c ← getChain
  match env.fallback, c.runState.speedFallbackIndex with
  | some fallback, some index => pure (fallback.advance error index).isSome
  | _, _ => pure false

def abortResult (decision : MiddlewareDecision) (modelCallCount : Nat) :
    ChainM A T W ((AgentResult A ⊕ ModelReply A T) × Nat) := do
  let result ← onLoop (LoopM.middlewareAbortResult decision)
  pure (.inl result, modelCallCount)

/-- `_invoke_with_middleware`: the reply or the result of an abort, with the count of model calls. -/
def invokeWithMiddleware (handle : RunnerHandle) (conversation : List (Entry A T)) (modelCallCount : Nat) :
    (fuel : Nat) → ChainM A T W ((AgentResult A ⊕ ModelReply A T) × Nat)
  | 0 => Prog.throw .outOfFuel
  | fuel + 1 => do
    let decision ← onLoop (LoopM.hook env.loop .beforeModelCall)
    if decision.action = .continue then do
      match ← request env handle conversation (modelCallCount + 1) with
      | .ok reply => pure (.inr reply, modelCallCount + 1)
      | .error (.baseException typeName) => Prog.throw (.raised (.baseException typeName))
      | .error (.exception typeName) => do
        let decision ← onLoop (LoopM.hook env.loop (.onModelError (.exception typeName)))
        match decision.action with
        | .retry => do
          match ← onLoop (LoopM.spendCapStop env.loop) with
          | some result => pure (.inl result, modelCallCount + 1)
          | none => do
            onLoop (LoopM.call env.loop.sleep ())
            invokeWithMiddleware handle conversation (modelCallCount + 1) fuel
        | .abortRun => do
          match ← routesOnward env (.exception typeName) with
          | true => Prog.throw (.raised (.exception typeName))
          | false => abortResult decision (modelCallCount + 1)
        | _ => Prog.throw (.raised (.exception typeName))
    else abortResult decision modelCallCount

/-! ### The switch -/

/-- `_raise_chain_exhausted`: a chain that never switched re-raises untouched. -/
def raiseChainExhausted (error : Raised) : ChainM A T W Unit := do
  let c ← getChain
  if c.progress.attempts = [] then pure ()
  else Prog.throw (.allModelsFailed c.progress.attempts (c.progress.errors ++ [error]))

/-- `AgentFallback.transform`. -/
def transform (fallback : AgentFallback) (provider : String) (index : Nat) :
    ChainM A T W FallbackTransform := do
  let target ← ofExcept (fallback.modelAt index)
  onLoop (LoopM.call env.buildRunner index)
  modifyChain fun c => { c with handles := c.handles + 1 }
  let c ← getChain
  let compatible := decide (ToolsFormatter.wireFormat env.casing provider
    = ToolsFormatter.wireFormat env.casing target.provider)
  pure ⟨index, ⟨c.handles, index, target.provider⟩, target.provider, !compatible⟩

/-- The log of a switch, and the state rebuilt for the next model. -/
def route (fallback : AgentFallback) (error : Raised) (nextIndex : Nat) :
    ChainM A T W FallbackTransform := do
  let c ← getChain
  modifyProgress fun p => { p with errors := p.errors ++ [error] }
  let attempt ← ofExcept (fallback.attemptRecord c.progress.index nextIndex error)
  modifyProgress fun p => { p with attempts := p.attempts ++ [attempt] }
  transform env fallback c.provider nextIndex

/-- `_fallback_transition`: `none` where the caller re-raises. -/
def fallbackTransition (error : Raised) : ChainM A T W (Option FallbackTransform) :=
  match env.fallback with
  | none => pure none
  | some fallback =>
    if fallback.isModelError error then do
      let c ← getChain
      match fallback.advance error c.progress.index with
      | none => do
        raiseChainExhausted error
        pure none
      | some nextIndex => some <$> route env fallback error nextIndex
    else pure none

def adopt (transition : FallbackTransform) (error : Raised) : ChainM A T W Unit :=
  Prog.modify fun run =>
    { loop :=
        { run.loop with
          state := run.loop.state.switched transition
            (ToolsFormatter.wireFormat env.casing transition.provider) }
      chain := run.chain.switched transition error }

def switchModel (pinModel : Bool) : ChainFailure → ChainM A T W Unit
  | .raised error => do
    record (.failed error)
    match ← (if pinModel then pure none else fallbackTransition env error) with
    | none => Prog.throw (.raised error)
    | some transition => adopt env transition error
  | failure => Prog.throw failure

/-! ### The loop -/

def publishIndex (pinModel : Bool) : ChainM A T W Unit :=
  if pinModel then pure ()
  else modifyChain fun c =>
    { c with runState := { c.runState with speedFallbackIndex := some c.progress.index } }

def callModel (conversation : List (Entry A T)) (fuel : Nat) :
    ChainM A T W (AgentResult A ⊕ ModelReply A T) := do
  let c ← getChain
  let (reply, modelCallCount) ← invokeWithMiddleware env c.handle conversation c.modelCallCount fuel
  modifyChain fun c => { c with modelCallCount := modelCallCount }
  pure reply

/-- The request of one iteration; `none` is a switch to another model. -/
def requestIteration (pinModel : Bool) (fuel : Nat) :
    ChainM A T W (Option (AgentResult A ⊕ ModelReply A T)) := do
  let conversation ← onLoop (LoopM.buildConversationMessages env.loop)
  publishIndex pinModel
  Prog.tryCatch (some <$> callModel env conversation fuel) fun failure => do
    switchModel env pinModel failure
    pure none

/-- One pass of the loop; `none` goes on. -/
def iteration (pinModel : Bool) (fuel : Nat) : ChainM A T W (Option (AgentResult A)) := do
  match ← onLoop (LoopM.budgetStop env.loop) with
  | some result => onLoop (some <$> LoopM.finishResult env.loop result)
  | none => do
    let decision ← onLoop (LoopM.hook env.loop .beforeIteration)
    if decision.action = .continue then do
      match ← requestIteration env pinModel fuel with
      | none => pure none
      | some (.inl result) => onLoop (some <$> LoopM.finishResult env.loop result)
      | some (.inr reply) => onLoop (LoopM.handleReply env.loop fuel reply)
    else do
      let result ← onLoop (LoopM.middlewareAbortResult decision)
      onLoop (some <$> LoopM.finishResult env.loop result)

def loop (pinModel : Bool) : (fuel : Nat) → ChainM A T W (AgentResult A)
  | 0 => Prog.throw .outOfFuel
  | fuel + 1 => do
    match ← iteration env pinModel fuel with
    | some result => pure result
    | none => loop pinModel fuel

/-! ### Trials -/

def begin (trial : Trial A T) (handle : RunnerHandle) : ChainM A T W Unit :=
  Prog.modify fun run =>
    { loop :=
        { run.loop with
          state :=
            { provider := ToolsFormatter.wireFormat env.casing handle.provider
              tools := trial.tools
              messages := trial.callerMessages.map fun message => ⟨.caller, .raw message⟩ } }
      chain := run.chain.begun env.fallback.isSome handle }

def direct (trial : Trial A T) (fuel : Nat) : ChainM A T W (AgentResult A) := do
  let decision ← onLoop (LoopM.hook env.loop .beforeRun)
  if decision.action = .continue then loop env trial.pinModel fuel
  else do
    let result ← onLoop (LoopM.middlewareAbortResult decision)
    onLoop (LoopM.finishResult env.loop result)

/-- `_arun_once`: the result, with what `_finish_result` lifts from the run state into its metadata. -/
def arunOnce (trial : Trial A T) (handle : RunnerHandle) (fuel : Nat) :
    ChainM A T W (AgentResult A × Option FallbackMetadata) := do
  begin env trial handle
  let result ← direct env trial fuel
  let c ← getChain
  pure (result, c.runState.resultMetadata)

/-- `_active_handle`. -/
def activeHandle (handle : RunnerHandle) : ChainM A T W RunnerHandle := do
  let c ← getChain
  pure (c.fallbackHandle.getD handle)

/-- The trials of one runtime, each on the model the one before it ended on; the result is the last's. -/
def trials (fuel : Nat) (handle : RunnerHandle) (first : Trial A T) :
    List (Trial A T) → ChainM A T W (AgentResult A × Option FallbackMetadata)
  | [] => arunOnce env first handle fuel
  | next :: rest => do
    let _ ← arunOnce env first handle fuel
    let handle ← activeHandle handle
    onLoop (LoopM.call env.betweenTrials ())
    trials fuel handle next rest

end ChainM

/-! ### Runs -/

def primaryHandle (provider : String) : RunnerHandle := ⟨0, 0, provider⟩

def ChainRun.start {A T W : Type} (provider : String) (tools : Catalog A) (world : W) :
    ChainRun A T W where
  loop := { world := world, state := { provider := .openai, tools := tools, messages := [] } }
  chain := { handle := primaryHandle provider, provider := provider }

def chainRunOf {A T W : Type} (env : ChainSurroundings A T W) (fuel : Nat) (provider : String)
    (first : Trial A T) (rest : List (Trial A T)) (world : W) :
    Outcome (ChainRun A T W) ChainFailure (AgentResult A × Option FallbackMetadata) :=
  ChainM.trials env fuel (primaryHandle provider) first rest (ChainRun.start provider first.tools world)

end VidbyteSdk.Agents.Loop
