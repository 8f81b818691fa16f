import VidbyteSdk.Agents.Loop.Fallback
import VidbyteSdk.Lib.Prefixes
import VidbyteSdk.Lib.Triples

/-!
# The discipline of the fallback chain

What the events of a run say of its models, and the invariant that each function of the chain keeps:
`Standing` holds of the chain at every request and at every switch, and the run lemma reads the
discipline of the whole run off it.
-/

namespace VidbyteSdk.Agents.Loop

open VidbyteSdk.Lib VidbyteSdk.Util Prog

variable {A T W : Type}

/-! ### Events -/

namespace ChainEvent

def switch? : ChainEvent → Option Switch
  | .switch s => some s
  | _ => none

def failed? : ChainEvent → Option Raised
  | .failed error => some error
  | _ => none

def request? : ChainEvent → Option Nat
  | .request model => some model
  | _ => none

end ChainEvent

def requested (events : List ChainEvent) : List Nat := events.filterMap ChainEvent.request?

def switches (events : List ChainEvent) : List Switch := events.filterMap ChainEvent.switch?

/-- The errors that escaped the model calls of a run, in order. -/
def failures (events : List ChainEvent) : List Raised := events.filterMap ChainEvent.failed?

def attemptsMade (events : List ChainEvent) : Nat :=
  events.foldl
    (fun n event =>
      match event with
      | .trial => 0
      | .request _ => n + 1
      | _ => n) 0

section

variable {events : List ChainEvent}

@[simp] theorem switches_trial : switches (events ++ [.trial]) = switches events := by
  simp [switches, ChainEvent.switch?]

@[simp] theorem switches_request (model : Nat) :
    switches (events ++ [.request model]) = switches events := by
  simp [switches, ChainEvent.switch?]

@[simp] theorem switches_failed (error : Raised) :
    switches (events ++ [.failed error]) = switches events := by
  simp [switches, ChainEvent.switch?]

@[simp] theorem switches_switch (s : Switch) :
    switches (events ++ [.switch s]) = switches events ++ [s] := by
  simp [switches, ChainEvent.switch?]

@[simp] theorem failures_trial : failures (events ++ [.trial]) = failures events := by
  simp [failures, ChainEvent.failed?]

@[simp] theorem failures_request (model : Nat) :
    failures (events ++ [.request model]) = failures events := by
  simp [failures, ChainEvent.failed?]

@[simp] theorem failures_failed (error : Raised) :
    failures (events ++ [.failed error]) = failures events ++ [error] := by
  simp [failures, ChainEvent.failed?]

@[simp] theorem failures_switch (s : Switch) :
    failures (events ++ [.switch s]) = failures events := by
  simp [failures, ChainEvent.failed?]

@[simp] theorem requested_trial : requested (events ++ [.trial]) = requested events := by
  simp [requested, ChainEvent.request?]

@[simp] theorem requested_request (model : Nat) :
    requested (events ++ [.request model]) = requested events ++ [model] := by
  simp [requested, ChainEvent.request?]

@[simp] theorem requested_failed (error : Raised) :
    requested (events ++ [.failed error]) = requested events := by
  simp [requested, ChainEvent.request?]

@[simp] theorem requested_switch (s : Switch) :
    requested (events ++ [.switch s]) = requested events := by
  simp [requested, ChainEvent.request?]

@[simp] theorem attemptsMade_trial : attemptsMade (events ++ [.trial]) = 0 := by
  simp [attemptsMade]

@[simp] theorem attemptsMade_request (model : Nat) :
    attemptsMade (events ++ [.request model]) = attemptsMade events + 1 := by
  simp [attemptsMade]

@[simp] theorem attemptsMade_failed (error : Raised) :
    attemptsMade (events ++ [.failed error]) = attemptsMade events := by
  simp [attemptsMade]

@[simp] theorem attemptsMade_switch (s : Switch) :
    attemptsMade (events ++ [.switch s]) = attemptsMade events := by
  simp [attemptsMade]

end

/-! ### The discipline -/

variable (env : ChainSurroundings A T W) (provider : String)

def ChainSurroundings.models : List FallbackModel := env.fallback.toList.flatMap (·.models)

/-- The provider at a chain index; the primary's is that of the handle the run was given. -/
def providerAt (index : Nat) : Option String :=
  if index = 0 then some provider else env.models[index]?.map (·.provider)

def FormatsDiffer (source target : Nat) : Prop :=
  (providerAt env provider source).map (ToolsFormatter.wireFormat env.casing)
    ≠ (providerAt env provider target).map (ToolsFormatter.wireFormat env.casing)

def IsModelError (error : Raised) : Prop :=
  ∃ fallback ∈ env.fallback, fallback.isModelError error = true

def recordOf (s : Switch) : Option AttemptRecord := do
  let source ← env.models[s.source]?
  let target ← env.models[s.target]?
  pure ⟨source.identity, target.identity, s.error.typeName⟩

/-- A switch goes on to the next model of the chain, right after a model error escaped the call, and
takes over every attempt made so far. -/
structure Switches (earlier : List ChainEvent) (s : Switch) : Prop where
  source : s.source = (switches earlier).length
  target : s.target = s.source + 1
  lt_length : s.target < env.models.length
  escaped : earlier.getLast? = some (.failed s.error)
  accepted : IsModelError env s.error
  counted : s.modelCallCount = attemptsMade earlier
  contextReset : s.contextReset = true ↔ FormatsDiffer env provider s.source s.target

/-- What an event may follow: a request goes to the model of the last switch. -/
def Follows (earlier : List ChainEvent) : ChainEvent → Prop
  | .request model => model = (switches earlier).length
  | .switch s => Switches env provider earlier s
  | _ => True

def Reports (events : List ChainEvent) (metadata : Option FallbackMetadata) : Prop :=
  match metadata with
  | none => switches events = []
  | some m =>
    switches events ≠ [] ∧ (switches events).map (recordOf env) = m.attempts.map some ∧
      m.finalModel = env.models[(switches events).length]?.map (·.identity) ∧
      m.contextReset = (switches events).any (·.contextReset)

/-- The chain is where its events put it: on the model of the last switch, with a log of every switch,
and with a count of the attempts of this trial. -/
structure Standing (given : RunnerHandle) (c : Chain) : Prop where
  follows : EachAfter (Follows env provider) c.events
  inChain : switches c.events = [] ∨ (switches c.events).length < env.models.length
  model : c.handle.model = (switches c.events).length
  provider : providerAt env provider (switches c.events).length = some c.provider
  index : c.progress.index = (switches c.events).length
  attempts : (switches c.events).map (recordOf env) = c.progress.attempts.map some
  errors : c.progress.errors = (switches c.events).map (·.error)
  contextReset : c.progress.contextReset = (switches c.events).any (·.contextReset)
  failures : failures c.events = (switches c.events).map (·.error)
  unsaved : switches c.events = [] → c.fallbackHandle = none ∧ c.handle = given
  saved : switches c.events ≠ [] → c.fallbackHandle = some c.handle ∧ c.fallbackProgress = c.progress
  handle : c.handle.provider = c.provider
  published : c.runState.resultMetadata =
    if switches c.events = [] then none
    else some (resultMetadata c.progress.attempts c.progress.contextReset)
  final : switches c.events ≠ [] → c.progress.attempts.getLast?.map (·.target)
    = env.models[(switches c.events).length]?.map (·.identity)
  counted : c.runState.modelCallCount.getD c.modelCallCount = attemptsMade c.events

/-- How a run ends that raises: `AllModelsFailedError` comes from a model error without a next model after
at least one switch, and lists every switch and every error that escaped a model call. -/
structure Failed (failure : ChainFailure) (c : Chain) : Prop where
  follows : EachAfter (Follows env provider) c.events
  inChain : switches c.events = [] ∨ (switches c.events).length < env.models.length
  exhausted : ∀ attempts errors, failure = .allModelsFailed attempts errors →
    switches c.events ≠ [] ∧ env.models.length = (switches c.events).length + 1 ∧
      (switches c.events).map (recordOf env) = attempts.map some ∧ errors = failures c.events ∧
      ∃ last, IsModelError env last ∧ errors = (switches c.events).map (·.error) ++ [last]

def IsPlainFailure (failure : ChainFailure) : Prop :=
  ∀ attempts errors, failure ≠ .allModelsFailed attempts errors

theorem isPlainFailure_raised (error : Raised) : IsPlainFailure (.raised error) := nofun

variable {env provider} {given : RunnerHandle}

section

variable {c : Chain}

theorem Standing.failed (h : Standing env provider given c) {failure : ChainFailure}
    (hplain : IsPlainFailure failure) : Failed env provider failure c :=
  ⟨h.follows, h.inChain, fun attempts errors heq => absurd heq (hplain attempts errors)⟩

theorem Standing.request (h : Standing env provider given c) :
    Standing env provider given
      { c with
        runState := { c.runState with modelCallCount := some (attemptsMade c.events + 1) }
        events := c.events ++ [.request c.handle.model] } where
  follows := eachAfter_concat.mpr ⟨h.follows, h.model⟩
  inChain := by simpa using h.inChain
  model := by simpa using h.model
  provider := by simpa using h.provider
  index := by simpa using h.index
  attempts := by simpa using h.attempts
  errors := by simpa using h.errors
  contextReset := by simpa using h.contextReset
  failures := by simpa using h.failures
  unsaved := by simpa using h.unsaved
  saved := by simpa using h.saved
  handle := h.handle
  published := by simpa using h.published
  final := by simpa using h.final
  counted := by simp

theorem Standing.recount (h : Standing env provider given c) :
    Standing env provider given { c with modelCallCount := attemptsMade c.events } where
  follows := h.follows
  inChain := h.inChain
  model := h.model
  provider := h.provider
  index := h.index
  attempts := h.attempts
  errors := h.errors
  contextReset := h.contextReset
  failures := h.failures
  unsaved := h.unsaved
  saved := h.saved
  handle := h.handle
  published := h.published
  final := h.final
  counted := by
    have hcounted := h.counted
    cases hcount : c.runState.modelCallCount with
    | none => rfl
    | some count => rwa [hcount] at hcounted

end

/-! ### The model call -/

namespace ChainM

variable {α : Type} {P : Chain → Prop}

def chainView (run : ChainRun A T W) : Chain := run.chain

theorem onLoop_ends {F : Chain → Prop} (m : LoopM A T W α) (hF : ∀ c, P c → F c) :
    Ends chainView P (onLoop m) (fun _ => P) fun failure c => F c ∧ IsPlainFailure failure := by
  intro run hP
  refine (wp_tryCatch _ _).mpr ((wp_zoom _ _ _).mpr ?_)
  refine wp_of_forall (fun _ => trivial) (fun _ _ => hP) fun failure _ => ?_
  cases failure with
  | raised raised => exact (wp_throw _).mpr ⟨hF _ hP, nofun⟩
  | outOfFuel => exact (wp_throw _).mpr ⟨hF _ hP, nofun⟩

variable {E : ChainFailure → Chain → Prop}

theorem getChain_ends {β : Type} {f : Chain → ChainM A T W β} {R : β → Chain → Prop}
    (h : ∀ c, P c → Ends chainView (fun c' => c' = c) (f c) R E) :
    Ends chainView P (getChain >>= f) R E := by
  intro run hP
  simp only [getChain, wp_bind, wp_get, wp_pure]
  exact h run.chain hP run rfl

theorem modifyChain_ends {change : Chain → Chain} {Q : Unit → Chain → Prop}
    (h : ∀ c, P c → Q () (change c)) :
    Ends chainView P (modifyChain change : ChainM A T W Unit) Q E :=
  Ends.modify fun run hP => h run.chain hP

/-- The chain stands, its handle is in use, and `n` attempts were made. -/
def Calling (env : ChainSurroundings A T W) (provider : String) (given handle : RunnerHandle)
    (n : Nat)
    (c : Chain) : Prop :=
  Standing env provider given c ∧ c.handle = handle ∧ attemptsMade c.events = n

variable {handle : RunnerHandle} {n : Nat}

theorem calling_standing (c : Chain) (h : Calling env provider given handle n c) : Standing env provider given c :=
  h.1

theorem request_ends (conversation : List (Entry A T)) :
    Ends chainView (Calling env provider given handle n) (request env handle conversation (n + 1))
      (fun _ => Calling env provider given handle (n + 1))
      fun failure c => Standing env provider given c ∧ IsPlainFailure failure := by
  have hsent : Ends chainView (Calling env provider given handle n)
      (modifyRunState (fun s => { s with modelCallCount := some (n + 1) }) >>= fun _ =>
        record (.request handle.model) : ChainM A T W Unit)
      (fun _ => Calling env provider given handle (n + 1))
      fun failure c => Standing env provider given c ∧ IsPlainFailure failure := by
    intro run hP
    obtain ⟨hstanding, rfl, rfl⟩ := hP
    simp only [modifyRunState, modifyChain, record, wp_bind, wp_modify, true_and]
    refine ⟨hstanding.request, rfl, ?_⟩
    simp [chainView]
  exact hsent.bind fun _ => onLoop_ends _ calling_standing

theorem routesOnward_ends (error : Raised) :
    Ends chainView P (routesOnward env error : ChainM A T W Bool) (fun _ => P) E := by
  refine getChain_ends fun c hP => ?_
  split
  · exact Ends.pure fun _ hc => hc ▸ hP
  · exact Ends.pure fun _ hc => hc ▸ hP

theorem abortResult_ends (decision : MiddlewareDecision) :
    Ends chainView (Calling env provider given handle n)
      (abortResult decision n : ChainM A T W ((AgentResult A ⊕ ModelReply A T) × Nat))
      (fun reply => Calling env provider given handle reply.2)
      fun failure c => Standing env provider given c ∧ IsPlainFailure failure :=
  (onLoop_ends _ calling_standing).bind fun _ => Ends.pure fun _ => id

theorem throw_ends (error : Raised) {Q : α → Chain → Prop} :
    Ends chainView (Calling env provider given handle n)
      (Prog.throw (.raised error) : ChainM A T W α) Q
      fun failure c => Standing env provider given c ∧ IsPlainFailure failure :=
  Ends.throw fun _ h => ⟨h.1, nofun⟩

theorem invokeWithMiddleware_ends (conversation : List (Entry A T)) : ∀ fuel n,
    Ends chainView (Calling env provider given handle n)
      (invokeWithMiddleware env handle conversation n fuel)
      (fun reply => Calling env provider given handle reply.2)
      fun failure c => Standing env provider given c ∧ IsPlainFailure failure := by
  intro fuel
  induction fuel with
  | zero => exact fun n => Ends.throw fun _ h => ⟨h.1, nofun⟩
  | succ fuel ih =>
    intro n
    refine (onLoop_ends _ calling_standing).bind fun decision => ?_
    refine Ends.ite (fun _ => ?_) fun _ => abortResult_ends decision
    refine (request_ends conversation).bind fun reply => ?_
    cases reply with
    | ok reply => exact Ends.pure fun _ => id
    | error raised =>
      cases raised with
      | baseException typeName => exact throw_ends _
      | exception typeName =>
        refine (onLoop_ends _ calling_standing).bind fun decision => ?_
        cases decision.action with
        | retry =>
          refine (onLoop_ends _ calling_standing).bind fun stopped => ?_
          cases stopped with
          | some result => exact Ends.pure fun _ => id
          | none => exact (onLoop_ends _ calling_standing).bind fun _ => ih (n + 1)
        | abortRun =>
          refine (routesOnward_ends _).bind fun onward => ?_
          cases onward with
          | true => exact throw_ends _
          | false => exact abortResult_ends decision
        | «continue» => exact throw_ends _
        | sleep => exact throw_ends _
        | denyTool => exact throw_ends _

def AtHead (env : ChainSurroundings A T W) (provider : String) (given : RunnerHandle) (c : Chain) : Prop :=
  Standing env provider given c ∧ c.modelCallCount = attemptsMade c.events

theorem callModel_ends (conversation : List (Entry A T)) (fuel : Nat) :
    Ends chainView (AtHead env provider given) (callModel env conversation fuel)
      (fun _ => AtHead env provider given)
      fun failure c => Standing env provider given c ∧ IsPlainFailure failure := by
  refine getChain_ends fun c hc => ?_
  have hcalling : ∀ c', c' = c → Calling env provider given c.handle c.modelCallCount c' := by
    rintro c' rfl
    exact ⟨hc.1, rfl, hc.2.symm⟩
  refine ((invokeWithMiddleware_ends conversation fuel _).conseq hcalling (fun _ _ => id)
    fun _ _ => id).bind fun reply => ?_
  refine (modifyChain_ends (Q := fun _ => AtHead env provider given) ?_).bind fun _ => Ends.pure fun _ => id
  rintro c' ⟨hstanding, -, hmade⟩
  rw [← hmade]
  exact ⟨hstanding.recount, rfl⟩

end ChainM

/-! ### The switch -/

def Escaped (env : ChainSurroundings A T W) (provider : String) (given : RunnerHandle) (error : Raised) (c : Chain) : Prop :=
  ∃ before, Standing env provider given before ∧
    c = { before with events := before.events ++ [.failed error] }

/-- The switch to the next model is on the log, and its transition is that of the policy. -/
structure Routed (env : ChainSurroundings A T W) (provider : String) (given : RunnerHandle) (error : Raised)
    (transition : FallbackTransform) (before : Chain) (record : AttemptRecord) : Prop where
  standing : Standing env provider given before
  accepted : IsModelError env error
  index : transition.index = (switches before.events).length + 1
  handle : transition.handle.model = transition.index
  lt_length : transition.index < env.models.length
  provider_eq : providerAt env provider transition.index = some transition.provider
  handleProvider : transition.handle.provider = transition.provider
  contextReset : transition.contextReset = true ↔
    FormatsDiffer env provider (switches before.events).length transition.index
  record_eq : ∀ n reset, recordOf env
    ⟨(switches before.events).length, transition.index, error, n, reset⟩ = some record
  target_eq : env.models[transition.index]?.map (·.identity) = some record.target

def Chain.logged (c : Chain) (error : Raised) (record : AttemptRecord) : Chain :=
  { c with
    progress :=
      { c.progress with
        errors := c.progress.errors ++ [error]
        attempts := c.progress.attempts ++ [record] }
    events := c.events ++ [.failed error] }

section

variable {c : Chain} {error : Raised} {transition : FallbackTransform} {record : AttemptRecord}
  {failure : ChainFailure}

theorem models_of_fallback {fallback : AgentFallback} (h : env.fallback = some fallback) :
    env.models = fallback.models := by
  simp [ChainSurroundings.models, h]

theorem Standing.failed_of_escaped (h : Standing env provider given c) (hplain : IsPlainFailure failure) :
    Failed env provider failure { c with events := c.events ++ [.failed error] } where
  follows := eachAfter_concat.mpr ⟨h.follows, trivial⟩
  inChain := by simpa using h.inChain
  exhausted attempts errors heq := absurd heq (hplain attempts errors)

theorem Standing.failed_of_exhausted (h : Standing env provider given c) {fallback : AgentFallback}
    (hfallback : env.fallback = some fallback) (haccepted : fallback.isModelError error = true)
    (hlast : fallback.models.length ≤ c.progress.index + 1) (hattempts : c.progress.attempts ≠ []) :
    Failed env provider (.allModelsFailed c.progress.attempts (c.progress.errors ++ [error]))
      { c with events := c.events ++ [.failed error] } where
  follows := eachAfter_concat.mpr ⟨h.follows, trivial⟩
  inChain := by simpa using h.inChain
  exhausted attempts errors heq := by
    obtain ⟨rfl, rfl⟩ := ChainFailure.allModelsFailed.inj heq
    simp only [switches_failed, failures_failed]
    have hswitched : switches c.events ≠ [] := by
      intro hnil
      have hmap := h.attempts
      rw [hnil] at hmap
      exact hattempts (List.map_eq_nil_iff.mp hmap.symm)
    have hlt := h.inChain.resolve_left hswitched
    rw [h.index, ← models_of_fallback hfallback] at hlast
    refine ⟨hswitched, by omega, h.attempts, ?_, error, ⟨fallback, hfallback, haccepted⟩, ?_⟩
    · rw [h.errors, h.failures]
    · rw [h.errors]

theorem Routed.switches_eq (h : Routed env provider given error transition c record) :
    switches ((c.logged error record).switched transition error).events = switches c.events ++
      [⟨(switches c.events).length, transition.index, error,
        attemptsMade c.events, transition.contextReset⟩] := by
  simp only [Chain.switched, Chain.logged, switches_switch, switches_failed, h.handle,
    h.standing.model, h.standing.counted]

theorem Routed.follows (h : Routed env provider given error transition c record) :
    EachAfter (Follows env provider) ((c.logged error record).switched transition error).events := by
  refine eachAfter_concat.mpr ⟨eachAfter_concat.mpr ⟨h.standing.follows, trivial⟩, ?_⟩
  constructor
  · simpa [Chain.logged] using h.standing.model
  · simp only [Chain.logged, h.handle, h.standing.model, h.index]
  · simpa only [h.handle] using h.lt_length
  · simp [Chain.logged]
  · exact h.accepted
  · simpa [Chain.logged] using h.standing.counted
  · simp only [Chain.logged, h.standing.model, h.handle]
    exact h.contextReset

theorem Routed.switched (h : Routed env provider given error transition c record) :
    ChainM.AtHead env provider given ((c.logged error record).switched transition error) := by
  have hlength := congrArg List.length h.switches_eq
  rw [List.length_append, List.length_singleton] at hlength
  have hattempts : (switches ((c.logged error record).switched transition error).events).map
      (recordOf env) = (c.progress.attempts ++ [record]).map some := by
    rw [h.switches_eq, List.map_append, List.map_append, h.standing.attempts, List.map_singleton,
      h.record_eq]
    rfl
  have hreset : (c.progress.contextReset || transition.contextReset)
      = (switches ((c.logged error record).switched transition error).events).any (·.contextReset) := by
    rw [h.switches_eq, List.any_append, h.standing.contextReset, List.any_cons, List.any_nil,
      Bool.or_false]
  have hne : switches ((c.logged error record).switched transition error).events ≠ [] := by
    rw [h.switches_eq]
    exact List.append_ne_nil_of_right_ne_nil _ (List.cons_ne_nil _ _)
  have hfailures : failures ((c.logged error record).switched transition error).events
      = failures c.events ++ [error] := by
    simp only [Chain.switched, Chain.logged, failures_switch, failures_failed]
  have hmade : c.runState.modelCallCount.getD c.modelCallCount
      = attemptsMade ((c.logged error record).switched transition error).events := by
    rw [h.standing.counted]
    simp only [Chain.switched, Chain.logged, attemptsMade_switch, attemptsMade_failed]
  refine ⟨?_, hmade⟩
  constructor
  · exact h.follows
  · exact .inr (by rw [hlength, ← h.index]; exact h.lt_length)
  · rw [hlength, ← h.index]
    exact h.handle
  · rw [hlength, ← h.index]
    exact h.provider_eq
  · rw [hlength]
    exact h.index
  · exact hattempts
  · rw [h.switches_eq, List.map_append, ← h.standing.errors]
    rfl
  · exact hreset
  · rw [h.switches_eq, List.map_append, ← h.standing.failures, hfailures]
    rfl
  · exact fun hnil => absurd hnil hne
  · exact fun _ => ⟨rfl, rfl⟩
  · exact h.handleProvider
  · rw [if_neg hne]
    rfl
  · intro _
    rw [hlength, ← h.index, h.target_eq]
    simp [Chain.switched, Chain.logged]
  · rw [← hmade]
    simp only [Chain.switched, Chain.logged]
    cases c.runState.modelCallCount <;> rfl

theorem escaped_failed (hplain : IsPlainFailure failure) (c : Chain)
    (h : Escaped env provider given error c) : Failed env provider failure c := by
  obtain ⟨before, hstanding, rfl⟩ := h
  exact hstanding.failed_of_escaped hplain

end

namespace ChainM

variable {error : Raised} {transition : FallbackTransform}

theorem ofExcept_ends {α : Type} {P : Chain → Prop} {E : ChainFailure → Chain → Prop}
    {x : Except Raised α} (hE : ∀ raised c, P c → E (.raised raised) c) :
    Ends chainView P (ofExcept x : ChainM A T W α) (fun a c => x = .ok a ∧ P c) E := by
  cases x with
  | ok a => exact Ends.pure fun _ h => ⟨rfl, h⟩
  | error raised => exact Ends.throw fun c h => hE raised c h

variable {before : Chain}

theorem raiseChainExhausted_ends {fallback : AgentFallback}
    (hstanding : Standing env provider given before) (hfallback : env.fallback = some fallback)
    (haccepted : fallback.isModelError error = true)
    (hlast : fallback.models.length ≤ before.progress.index + 1) :
    Ends chainView (fun c => c = { before with events := before.events ++ [.failed error] })
      (raiseChainExhausted error : ChainM A T W Unit)
      (fun _ => Escaped env provider given error) (Failed env provider) := by
  refine getChain_ends fun c hc => ?_
  subst hc
  refine Ends.ite (fun _ => Ends.pure ?_) fun hattempts => Ends.throw ?_
  · rintro c rfl
    exact ⟨before, hstanding, rfl⟩
  · rintro c rfl
    exact hstanding.failed_of_exhausted hfallback haccepted hlast hattempts

/-- What `fallbackTransition` leaves behind. -/
def Decided (env : ChainSurroundings A T W) (provider : String) (given : RunnerHandle) (error : Raised) :
    Option FallbackTransform → Chain → Prop
  | none, c => Escaped env provider given error c
  | some transition, c =>
    ∃ before record, Routed env provider given error transition before record ∧ c = before.logged error record

theorem failed_of_events {failure : ChainFailure} {before c : Chain} (h : Standing env provider given before)
    (hevents : c.events = before.events ++ [.failed error]) (hplain : IsPlainFailure failure) :
    Failed env provider failure c := by
  have hfailed : Failed env provider failure
      { before with events := before.events ++ [.failed error] } := h.failed_of_escaped hplain
  exact ⟨hevents ▸ hfailed.follows, hevents ▸ hfailed.inChain, hevents ▸ hfailed.exhausted⟩

theorem standing_handles {c : Chain} {n : Nat} (h : Standing env provider given c) :
    Standing env provider given { c with handles := n } :=
  ⟨h.follows, h.inChain, h.model, h.provider, h.index, h.attempts, h.errors, h.contextReset, h.failures,
    h.unsaved, h.saved, h.handle, h.published, h.final, h.counted⟩

theorem modelAt_eq_ok {fallback : AgentFallback} {index : Nat} {m : FallbackModel}
    (h : fallback.modelAt index = .ok m) : fallback.models[index]? = some m := by
  unfold AgentFallback.modelAt at h
  split at h
  · cases h
  · next hm =>
    rw [hm, Except.ok.inj h]

theorem attemptRecord_eq_ok {fallback : AgentFallback} {index next : Nat} {record : AttemptRecord}
    (h : fallback.attemptRecord index next error = .ok record) :
    ∃ source target, fallback.models[index]? = some source ∧ fallback.models[next]? = some target ∧
      record = ⟨source.identity, target.identity, error.typeName⟩ := by
  unfold AgentFallback.attemptRecord at h
  cases hsource : fallback.modelAt index with
  | error raised =>
    rw [hsource] at h
    cases h
  | ok source =>
    cases htarget : fallback.modelAt next with
    | error raised =>
      rw [hsource, htarget] at h
      cases h
    | ok target =>
      rw [hsource, htarget] at h
      exact ⟨source, target, modelAt_eq_ok hsource, modelAt_eq_ok htarget, (Except.ok.inj h).symm⟩

theorem advance_eq_some {fallback : AgentFallback} {index next : Nat}
    (h : fallback.advance error index = some next) :
    next = index + 1 ∧ index + 1 < fallback.models.length := by
  unfold AgentFallback.advance at h
  split at h
  · cases h
  · next hcond =>
    rw [not_or, not_not, Nat.not_le] at hcond
    exact ⟨(Option.some.inj h).symm, hcond.2⟩

theorem advance_eq_none {fallback : AgentFallback} {index : Nat}
    (h : fallback.advance error index = none) (haccepted : fallback.isModelError error = true) :
    fallback.models.length ≤ index + 1 := by
  unfold AgentFallback.advance at h
  split at h
  · next hcond => exact hcond.resolve_left (not_not.mpr haccepted)
  · cases h

theorem transform_ends {fallback : AgentFallback} {next : Nat} {record : AttemptRecord}
    (hstanding : Standing env provider given before) (hfallback : env.fallback = some fallback)
    (haccepted : fallback.isModelError error = true)
    (hnext : next = (switches before.events).length + 1) (hlt : next < fallback.models.length)
    (hrecord : fallback.attemptRecord before.progress.index next error = .ok record) :
    Ends chainView (fun c => c = before.logged error record)
      (transform env fallback before.provider next)
      (fun transition => Decided env provider given error (some transition)) (Failed env provider) := by
  have hfailed : ∀ failure c, c.events = before.events ++ [.failed error] →
      IsPlainFailure failure → Failed env provider failure c :=
    fun failure c hc hplain => failed_of_events hstanding hc hplain
  refine (ofExcept_ends ?_).bind fun target => Ends.assume fun htarget => ?_
  · rintro raised c rfl
    exact hfailed _ _ rfl nofun
  have hbuilt : Ends chainView (fun c => c = before.logged error record)
      (onLoop (LoopM.call env.buildRunner next) : ChainM A T W Unit)
      (fun _ c => c = before.logged error record) (Failed env provider) := by
    refine (onLoop_ends (F := fun c => c = before.logged error record) _ fun _ => id).conseq
      (fun _ => id) (fun _ _ => id) ?_
    rintro failure c ⟨rfl, hplain⟩
    exact hfailed _ _ rfl hplain
  refine hbuilt.bind fun _ => ?_
  refine (modifyChain_ends (Q := fun _ c =>
    c = { before with handles := before.handles + 1 }.logged error record) ?_).bind fun _ => ?_
  · rintro c rfl
    rfl
  refine getChain_ends fun c hc => Ends.pure ?_
  rintro c' rfl
  refine ⟨_, record, ?_, hc⟩
  obtain ⟨source, target', hsource, htarget', rfl⟩ := attemptRecord_eq_ok hrecord
  have hmodels := models_of_fallback hfallback
  have htargetAt : fallback.models[next]? = some target := modelAt_eq_ok htarget
  obtain rfl : target' = target := Option.some.inj (htarget'.symm.trans htargetAt)
  have hprovider : providerAt env provider next = some target'.provider := by
    rw [providerAt, if_neg (by omega), hmodels, htarget']
    rfl
  constructor
  · exact standing_handles hstanding
  · exact ⟨fallback, hfallback, haccepted⟩
  · exact hnext
  · rfl
  · rw [hmodels]
    exact hlt
  · exact hprovider
  · rfl
  · show (!decide _) = true ↔ _
    rw [FormatsDiffer, hstanding.provider, hprovider]
    simp
  · intro n reset
    rw [hstanding.index] at hsource
    simp only [recordOf, hmodels, hsource, htarget', Option.bind_eq_bind, Option.bind_some]
    rfl
  · rw [hmodels, htarget']
    rfl

theorem route_ends {fallback : AgentFallback} {next : Nat}
    (hstanding : Standing env provider given before) (hfallback : env.fallback = some fallback)
    (haccepted : fallback.isModelError error = true)
    (hadvance : fallback.advance error before.progress.index = some next) :
    Ends chainView (fun c => c = { before with events := before.events ++ [.failed error] })
      (route env fallback error next)
      (fun transition => Decided env provider given error (some transition)) (Failed env provider) := by
  obtain ⟨hnext, hlt⟩ := advance_eq_some hadvance
  refine getChain_ends fun c hc => ?_
  subst hc
  refine (modifyChain_ends (Q := fun _ c => c =
    { before with
      progress := { before.progress with errors := before.progress.errors ++ [error] }
      events := before.events ++ [.failed error] }) ?_).bind fun _ => ?_
  · rintro c rfl
    rfl
  refine (ofExcept_ends ?_).bind fun record => Ends.assume fun hrecord => ?_
  · rintro raised c rfl
    exact failed_of_events hstanding rfl nofun
  refine (modifyChain_ends (Q := fun _ c => c = before.logged error record) ?_).bind fun _ => ?_
  · rintro c rfl
    rfl
  refine transform_ends hstanding hfallback haccepted ?_ ?_ hrecord
  · rw [hnext, hstanding.index]
  · rw [hnext]
    exact hlt

theorem fallbackTransition_ends (hstanding : Standing env provider given before) :
    Ends chainView (fun c => c = { before with events := before.events ++ [.failed error] })
      (fallbackTransition env error) (Decided env provider given error) (Failed env provider) := by
  have hnone : ∀ c, c = { before with events := before.events ++ [.failed error] } →
      Decided env provider given error none c := fun c hc => ⟨before, hstanding, hc⟩
  unfold fallbackTransition
  cases hfallback : env.fallback with
  | none => exact Ends.pure hnone
  | some fallback =>
    refine Ends.ite (fun haccepted => ?_) fun _ => Ends.pure hnone
    refine getChain_ends fun c hc => ?_
    subst hc
    cases hadvance : fallback.advance error before.progress.index with
    | none =>
      have hlast := advance_eq_none hadvance haccepted
      exact (raiseChainExhausted_ends hstanding hfallback haccepted hlast).bind fun _ =>
        Ends.pure fun _ h => h
    | some next =>
      simp only [hadvance]
      exact (route_ends hstanding hfallback haccepted hadvance).map

theorem switchModel_ends (pinModel : Bool) {failure : ChainFailure} (hplain : IsPlainFailure failure) :
    Ends chainView (Standing env provider given) (switchModel env pinModel failure)
      (fun _ => AtHead env provider given) (Failed env provider) := by
  cases failure with
  | allModelsFailed attempts errors => exact absurd rfl (hplain attempts errors)
  | outOfFuel => exact Ends.throw fun _ h => h.failed nofun
  | raised error =>
    intro run hstanding
    have hdecided : Ends chainView
        (fun c => c = { run.chain with events := run.chain.events ++ [.failed error] })
        (if pinModel then pure none else fallbackTransition env error : ChainM A T W _)
        (Decided env provider given error) (Failed env provider) := by
      refine Ends.ite (fun _ => Ends.pure fun c hc => ?_) fun _ => fallbackTransition_ends hstanding
      exact ⟨run.chain, hstanding, hc⟩
    refine (wp_bind _ _).mpr ((wp_modify _).mpr ⟨trivial, ?_⟩)
    refine hdecided.bind (R := fun _ => AtHead env provider given) (fun transition => ?_) _ rfl
    cases transition with
    | none => exact Ends.throw fun c hc => escaped_failed (isPlainFailure_raised error) c hc
    | some transition =>
      refine Ends.modify fun run hrun => ?_
      obtain ⟨before, record, hrouted, hchain⟩ := hrun
      show AtHead env provider given (run.chain.switched transition error)
      rw [show run.chain = _ from hchain]
      exact hrouted.switched

/-! ### The loop -/

theorem publishIndex_ends (pinModel : Bool) {E : ChainFailure → Chain → Prop} :
    Ends chainView (AtHead env provider given) (publishIndex pinModel : ChainM A T W Unit)
      (fun _ => AtHead env provider given) E := by
  refine Ends.ite (fun _ => Ends.pure fun _ => id) fun _ => modifyChain_ends fun c hc => ?_
  obtain ⟨h, hmade⟩ := hc
  exact ⟨⟨h.follows, h.inChain, h.model, h.provider, h.index, h.attempts, h.errors, h.contextReset,
    h.failures, h.unsaved, h.saved, h.handle, h.published, h.final, h.counted⟩, hmade⟩

theorem atHead_onLoop {α : Type} (m : LoopM A T W α) :
    Ends chainView (AtHead env provider given) (onLoop m) (fun _ => AtHead env provider given)
      (Failed env provider) :=
  (onLoop_ends m fun _ => id).conseq (fun _ => id) (fun _ _ => id) fun _ _ h => h.1.1.failed h.2

theorem requestIteration_ends (pinModel : Bool) (fuel : Nat) :
    Ends chainView (AtHead env provider given) (requestIteration env pinModel fuel)
      (fun _ => AtHead env provider given) (Failed env provider) := by
  refine (atHead_onLoop _).bind fun conversation => (publishIndex_ends pinModel).bind fun _ => ?_
  refine Ends.tryCatch (Ends.map (R := fun _ => AtHead env provider given)
    (callModel_ends conversation fuel)) fun failure => ?_
  intro run hrun
  obtain ⟨hstanding, hplain⟩ := hrun
  exact Ends.bind (R := fun _ => AtHead env provider given) (switchModel_ends pinModel hplain)
    (fun _ => Ends.pure fun _ => id) run hstanding

theorem iteration_ends (pinModel : Bool) (fuel : Nat) :
    Ends chainView (AtHead env provider given) (iteration env pinModel fuel) (fun _ => AtHead env provider given)
      (Failed env provider) := by
  refine (atHead_onLoop _).bind fun stopped => ?_
  cases stopped with
  | some result => exact atHead_onLoop _
  | none =>
    refine (atHead_onLoop _).bind fun decision => Ends.ite (fun _ => ?_) fun _ => ?_
    · refine (requestIteration_ends pinModel fuel).bind fun reply => ?_
      match reply with
      | none => exact Ends.pure fun _ => id
      | some (.inl result) => exact atHead_onLoop _
      | some (.inr reply) => exact atHead_onLoop _
    · exact (atHead_onLoop _).bind fun _ => atHead_onLoop _

theorem loop_ends (pinModel : Bool) (fuel : Nat) :
    Ends chainView (AtHead env provider given) (loop env pinModel fuel) (fun _ => AtHead env provider given)
      (Failed env provider) := by
  induction fuel with
  | zero => exact Ends.throw fun _ h => h.1.failed nofun
  | succ fuel ih =>
    refine (iteration_ends pinModel fuel).bind fun result => ?_
    cases result with
    | some result => exact Ends.pure fun _ => id
    | none => exact ih

theorem direct_ends (trial : Trial A T) (fuel : Nat) :
    Ends chainView (AtHead env provider given) (direct env trial fuel) (fun _ => AtHead env provider given)
      (Failed env provider) := by
  refine (atHead_onLoop _).bind fun decision => Ends.ite (fun _ => ?_) fun _ => ?_
  · exact loop_ends trial.pinModel fuel
  · exact (atHead_onLoop _).bind fun _ => atHead_onLoop _

/-! ### Trials -/

theorem begun_atHead {c : Chain} (h : Standing env provider given c) :
    AtHead env provider c.handle (c.begun env.fallback.isSome c.handle) := by
  have hresumed : switches c.events ≠ [] →
      c.fallbackHandle = some c.handle ∧ env.fallback.isSome = true := by
    intro hne
    refine ⟨(h.saved hne).1, ?_⟩
    cases hfallback : env.fallback with
    | some fallback => rfl
    | none =>
      have hlt := h.inChain.resolve_left hne
      simp [ChainSurroundings.models, hfallback] at hlt
  have hprogress : (c.begun env.fallback.isSome c.handle).progress
      = if switches c.events = [] then {} else c.progress := by
    by_cases hnil : switches c.events = []
    · simp [Chain.begun, hnil, (h.unsaved hnil).1]
    · simp [Chain.begun, hnil, (h.saved hnil).1, (h.saved hnil).2]
  have hpublished : (c.begun env.fallback.isSome c.handle).runState.resultMetadata
      = if switches c.events = [] then none
        else some (resultMetadata c.progress.attempts c.progress.contextReset) := by
    by_cases hnil : switches c.events = []
    · simp [Chain.begun, hnil, (h.unsaved hnil).1]
    · simp [Chain.begun, hnil, (h.saved hnil).1, (h.saved hnil).2, (hresumed hnil).2]
  have hswitches : switches (c.begun env.fallback.isSome c.handle).events = switches c.events :=
    switches_trial
  have hindex := h.index
  have hattempts := h.attempts
  have herrors := h.errors
  have hreset := h.contextReset
  refine ⟨?_, by simp [Chain.begun]⟩
  constructor
  · exact eachAfter_concat.mpr ⟨h.follows, trivial⟩
  · rw [hswitches]
    exact h.inChain
  · rw [hswitches]
    exact h.model
  · rw [hswitches, h.provider, ← h.handle]
    rfl
  · rw [hswitches, hprogress]
    split
    · next hnil => rw [hnil]; rfl
    · exact hindex
  · rw [hswitches, hprogress]
    split
    · next hnil => rw [hnil]; rfl
    · exact hattempts
  · rw [hswitches, hprogress]
    split
    · next hnil => rw [hnil]; rfl
    · exact herrors
  · rw [hswitches, hprogress]
    split
    · next hnil => rw [hnil]; rfl
    · exact hreset
  · rw [hswitches, ← h.failures]
    exact failures_trial
  · intro hnil
    rw [hswitches] at hnil
    exact ⟨(h.unsaved hnil).1, rfl⟩
  · intro hne
    rw [hswitches] at hne
    rw [hprogress, if_neg hne]
    exact h.saved hne
  · rfl
  · rw [hswitches, hpublished, hprogress]
    split
    · rfl
    · rfl
  · intro hne
    rw [hswitches] at hne ⊢
    rw [hprogress, if_neg hne]
    exact h.final hne
  · simp [Chain.begun]

theorem standing_start :
    Standing env provider (primaryHandle provider)
      { handle := primaryHandle provider, provider := provider } where
  follows := eachAfter_nil
  inChain := .inl rfl
  model := rfl
  provider := rfl
  index := rfl
  attempts := rfl
  errors := rfl
  contextReset := rfl
  failures := rfl
  unsaved _ := ⟨rfl, rfl⟩
  saved h := absurd rfl h
  handle := rfl
  published := rfl
  final h := absurd rfl h
  counted := rfl

theorem reports_of_standing {c : Chain} (h : Standing env provider given c) :
    Reports env c.events c.runState.resultMetadata := by
  rw [h.published]
  by_cases hnil : switches c.events = []
  · rw [if_pos hnil]
    exact hnil
  · rw [if_neg hnil]
    exact ⟨hnil, h.attempts, h.final hnil, h.contextReset⟩

theorem arunOnce_ends (trial : Trial A T) (handle : RunnerHandle) (fuel : Nat) :
    Ends chainView (fun c => Standing env provider given c ∧ c.handle = handle)
      (arunOnce env trial handle fuel)
      (fun result c => Standing env provider handle c ∧ result.2 = c.runState.resultMetadata)
      (Failed env provider) := by
  have hbegun : Ends chainView (fun c => Standing env provider given c ∧ c.handle = handle)
      (begin env trial handle) (fun _ => AtHead env provider handle) (Failed env provider) := by
    refine Ends.modify fun run hrun => ?_
    obtain ⟨hstanding, rfl⟩ := hrun
    exact begun_atHead hstanding
  refine hbegun.bind fun _ => (direct_ends trial fuel).bind fun result => getChain_ends fun c hc => ?_
  refine Ends.pure ?_
  rintro c' rfl
  exact ⟨hc.1, rfl⟩

theorem activeHandle_ends (handle : RunnerHandle) {E : ChainFailure → Chain → Prop} :
    Ends chainView (Standing env provider handle) (activeHandle handle : ChainM A T W RunnerHandle)
      (fun active c => Standing env provider handle c ∧ c.handle = active) E := by
  refine getChain_ends fun c hc => Ends.pure ?_
  rintro c' rfl
  refine ⟨hc, ?_⟩
  by_cases hnil : switches c'.events = []
  · rw [(hc.unsaved hnil).1, (hc.unsaved hnil).2]
    rfl
  · rw [(hc.saved hnil).1]
    rfl

theorem trials_ends (fuel : Nat) (handle : RunnerHandle) (first : Trial A T) (rest : List (Trial A T)) :
    Ends chainView (fun c => ∃ given, Standing env provider given c ∧ c.handle = handle)
      (trials env fuel handle first rest)
      (fun result c => ∃ given, Standing env provider given c ∧ result.2 = c.runState.resultMetadata)
      (Failed env provider) := by
  induction rest generalizing handle first with
  | nil =>
    rintro run ⟨given, hrun⟩
    exact wp_post (arunOnce_ends first handle fuel run hrun) (fun _ _ h => ⟨_, h⟩) fun _ _ => id
  | cons next rest ih =>
    have hbetween : ∀ active, Ends chainView
        (fun c => Standing env provider handle c ∧ c.handle = active)
        (onLoop (LoopM.call env.betweenTrials ()) : ChainM A T W Unit)
        (fun _ c => Standing env provider handle c ∧ c.handle = active) (Failed env provider) :=
      fun active => (onLoop_ends _ fun _ => id).conseq (fun _ => id) (fun _ _ => id) fun _ _ h =>
        h.1.1.failed h.2
    rintro run ⟨given, hrun⟩
    refine (wp_bind _ _).mpr (wp_post (arunOnce_ends first handle fuel run hrun) ?_ fun _ _ => id)
    intro _ run hrun
    refine (wp_bind _ _).mpr (wp_post (activeHandle_ends handle run hrun.1) ?_ fun _ _ => id)
    intro active run hrun
    refine (wp_bind _ _).mpr (wp_post (hbetween active run hrun) ?_ fun _ _ => id)
    intro _ run hrun
    exact ih active next run ⟨_, hrun⟩

end ChainM

/-! ### The models of a run -/

theorem switches_path {events : List ChainEvent} (h : EachAfter (Follows env provider) events) :
    (switches events).map (fun s => (s.source, s.target))
      = (List.range (switches events).length).map fun i => (i, i + 1) := by
  induction events using List.reverseRecOn with
  | nil => rfl
  | append_singleton events event ih =>
    obtain ⟨hearlier, hevent⟩ := eachAfter_concat.mp h
    cases event with
    | trial => simpa using ih hearlier
    | request model => simpa using ih hearlier
    | failed error => simpa using ih hearlier
    | «switch» s =>
      have hswitch : Switches env provider events s := hevent
      rw [switches_switch, List.map_append, List.length_append, List.length_singleton,
        List.range_succ, List.map_append, ih hearlier, List.map_singleton, List.map_singleton,
        hswitch.target, hswitch.source]

theorem requested_sorted {events : List ChainEvent} (h : EachAfter (Follows env provider) events) :
    (requested events).Pairwise (· ≤ ·) ∧ ∀ model ∈ requested events, model ≤ (switches events).length := by
  induction events using List.reverseRecOn with
  | nil => exact ⟨List.Pairwise.nil, nofun⟩
  | append_singleton events event ih =>
    obtain ⟨hearlier, hevent⟩ := eachAfter_concat.mp h
    obtain ⟨hsorted, hle⟩ := ih hearlier
    cases event with
    | trial => simpa using ⟨hsorted, hle⟩
    | failed error => simpa using ⟨hsorted, hle⟩
    | «switch» s =>
      rw [requested_switch, switches_switch, List.length_append, List.length_singleton]
      exact ⟨hsorted, fun model hmodel => Nat.le_succ_of_le (hle model hmodel)⟩
    | request model =>
      have hmodel : model = (switches events).length := hevent
      rw [requested_request, switches_request, hmodel]
      refine ⟨List.pairwise_append.mpr ⟨hsorted, List.pairwise_singleton _ _, ?_⟩, ?_⟩
      · intro earlier hearlier later hlater
        rw [List.mem_singleton.mp hlater]
        exact hle earlier hearlier
      · intro later hlater
        rcases List.mem_append.mp hlater with hlater | hlater
        · exact hle later hlater
        · exact (List.mem_singleton.mp hlater).le

/-- **A run goes down its chain of models.** Its switches go from each model to the next, inside the
chain, each right after a model error escaped the model call and with a count of every attempt the trial
made before it, and its requests never return to an earlier model. `AllModelsFailedError` ends a run that
switched and has no next model, with every switch and every error in order; a result reports every switch,
and that the context was reset once one of them reset it. -/
theorem fallback_discipline (env : ChainSurroundings A T W) (fuel : Nat) (provider : String)
    (first : Trial A T) (rest : List (Trial A T)) (world : W) :
    let run := chainRunOf env fuel provider first rest world
    let events := run.final.chain.events
    let k := (switches events).length
    (switches events).map (fun s => (s.source, s.target)) = (List.range k).map (fun i => (i, i + 1)) ∧
    (k = 0 ∨ k < env.models.length) ∧
    EachAfter (Follows env provider) events ∧
    (requested events).Pairwise (· ≤ ·) ∧ (∀ model ∈ requested events, model ≤ k) ∧
    match run.result with
    | .ok (_, metadata) => Reports env events metadata
    | .error (.allModelsFailed attempts errors) =>
      0 < k ∧ env.models.length = k + 1 ∧
        (switches events).map (recordOf env) = attempts.map some ∧ errors = failures events ∧
        ∃ last, IsModelError env last ∧ errors = (switches events).map (·.error) ++ [last]
    | .error _ => True := by
  intro run events k
  have hstart : ∃ given, Standing env provider given
      (ChainM.chainView (ChainRun.start (T := T) provider first.tools world)) ∧
        (ChainM.chainView (ChainRun.start (T := T) provider first.tools world)).handle
          = primaryHandle provider := ⟨_, ChainM.standing_start, rfl⟩
  obtain ⟨hok, herror⟩ := wp_ends (ChainM.trials_ends fuel (primaryHandle provider) first rest _ hstart)
  have hdiscipline : ∀ hfollows : EachAfter (Follows env provider) events,
      (switches events).map (fun s => (s.source, s.target)) = (List.range k).map (fun i => (i, i + 1)) ∧
      (requested events).Pairwise (· ≤ ·) ∧ ∀ model ∈ requested events, model ≤ k :=
    fun hfollows => ⟨switches_path hfollows, requested_sorted hfollows⟩
  have hinside : (switches events = [] ∨ k < env.models.length) → k = 0 ∨ k < env.models.length :=
    fun h => h.imp_left fun hnil => by rw [List.length_eq_zero_iff]; exact hnil
  cases hcase : run.result with
  | ok result =>
    obtain ⟨given, hstanding, hmetadata⟩ := hok result hcase
    obtain ⟨hpath, hsorted, hle⟩ := hdiscipline hstanding.follows
    refine ⟨hpath, hinside hstanding.inChain, hstanding.follows, hsorted, hle, ?_⟩
    show Reports env events result.2
    rw [hmetadata]
    exact ChainM.reports_of_standing hstanding
  | error failure =>
    obtain ⟨hfollows, hchain, hexhausted⟩ := herror failure hcase
    obtain ⟨hpath, hsorted, hle⟩ := hdiscipline hfollows
    refine ⟨hpath, hinside hchain, hfollows, hsorted, hle, ?_⟩
    cases failure with
    | raised error => trivial
    | outOfFuel => trivial
    | allModelsFailed attempts errors =>
      obtain ⟨hne, hspent⟩ := hexhausted attempts errors rfl
      exact ⟨List.length_pos_iff.mpr hne, hspent⟩

end VidbyteSdk.Agents.Loop
