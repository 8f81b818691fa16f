import VidbyteSdk.Lib.Upsert
import VidbyteSdk.Workflows.Effects
import VidbyteSdk.Workflows.Graph

/-!
# What compilation decides, and what a compiled graph can do

`compile_isOk_iff` says which declarations compile, in terms of the graph they describe; the worklist of
the source does not appear in it. The rest of the module follows a run of a compiled graph: `Stays` is what
the machine does between two targets, where the current stage does not change and no lookup fails, and
`Standing` what it keeps across them.
-/

namespace VidbyteSdk.Workflows

open VidbyteSdk.Lib Prog

variable {S W : Type}

/-! ### The graph that is declared -/

namespace StateGraph

variable (g : StateGraph S W)

/-- The rows of each dictionary have distinct keys, and no stage is a terminal. -/
structure Distinct : Prop where
  nodes : (g.stageNames ++ g.terminalNames).Nodup
  routeKeys : (g.routes.map Prod.fst).Nodup
  branchKeys : ∀ key router routes, (key, Route.branch router routes) ∈ g.routes →
    (routes.map Prod.fst).Nodup

theorem nodup_normalizeEntries {key : String × String} {entries : List (String × BranchTarget S W)}
    {normalized routes : List (String × DirectRoute S W)} (hnodup : (normalized.map Prod.fst).Nodup)
    (h : normalizeEntries key entries normalized = .ok routes) : (routes.map Prod.fst).Nodup := by
  induction entries generalizing normalized with
  | nil =>
    cases h
    exact hnodup
  | cons entry entries ih =>
    obtain ⟨branch, -, h⟩ := bind_eq_ok h
    obtain ⟨hfree, h⟩ := andThen_eq_ok.mp h
    obtain ⟨destination, -, h⟩ := bind_eq_ok h
    refine ih ?_ h
    rw [List.map_append, List.map_singleton]
    exact List.nodup_append_comm.mp (List.nodup_cons.mpr ⟨require_eq_ok.mp hfree, hnodup⟩)

theorem Distinct.addRoute {g : StateGraph S W} {key : String × String} {route : Route S W}
    (h : g.Distinct) (hfree : g.assertRouteIsAvailable key = .ok ())
    (hkeys : ∀ router routes, route = .branch router routes → (routes.map Prod.fst).Nodup) :
    ({ g with routes := g.routes ++ [(key, route)] } : StateGraph S W).Distinct := by
  refine ⟨h.nodes, ?_, ?_⟩
  · rw [List.map_append, List.map_singleton]
    exact List.nodup_append_comm.mp (List.nodup_cons.mpr ⟨require_eq_ok.mp hfree, h.routeKeys⟩)
  · intro key' router routes hmem
    rcases List.mem_append.mp hmem with hmem | hmem
    · exact h.branchKeys key' router routes hmem
    · exact hkeys router routes (Prod.mk.inj (List.mem_singleton.mp hmem)).2.symm

theorem Distinct.apply {g next : StateGraph S W} {call : BuilderCall S W} (h : g.Distinct)
    (hnext : g.apply call = .ok next) : next.Distinct := by
  cases call with
  | addStage name stage validators policy =>
    obtain ⟨stageName, -, hnext⟩ := bind_eq_ok hnext
    obtain ⟨hfree, hnext⟩ := andThen_eq_ok.mp hnext
    cases hnext
    refine ⟨?_, h.routeKeys, h.branchKeys⟩
    have hnew : stageName ∉ g.stageNames ++ g.terminalNames := by
      rw [List.mem_append, not_or]
      exact require_eq_ok.mp hfree
    have hnodes := List.nodup_middle.mpr (List.nodup_cons.mpr ⟨hnew, h.nodes⟩)
    simpa [stageNames, terminalNames] using hnodes
  | setEntry name =>
    obtain ⟨entry, -, hnext⟩ := bind_eq_ok hnext
    cases hnext
    exact ⟨h.nodes, h.routeKeys, h.branchKeys⟩
  | addTerminal name status =>
    obtain ⟨terminal, -, hnext⟩ := bind_eq_ok hnext
    obtain ⟨hfree, hnext⟩ := andThen_eq_ok.mp hnext
    cases hstatus : status.resolve with
    | none =>
      rw [hstatus] at hnext
      cases hnext
    | some resolved =>
      rw [hstatus] at hnext
      cases hnext
      refine ⟨?_, h.routeKeys, h.branchKeys⟩
      have hnew : terminal ∉ g.stageNames ++ g.terminalNames := by
        rw [List.mem_append, not_or]
        exact require_eq_ok.mp hfree
      have hnodes : ([terminal] ++ (g.stageNames ++ g.terminalNames)).Nodup :=
        List.nodup_cons.mpr ⟨hnew, h.nodes⟩
      rw [List.nodup_append_comm] at hnodes
      simpa [stageNames, terminalNames] using hnodes
  | addTransition source target on guards =>
    obtain ⟨key, -, hnext⟩ := bind_eq_ok hnext
    obtain ⟨hfree, hnext⟩ := andThen_eq_ok.mp hnext
    obtain ⟨target, -, hnext⟩ := bind_eq_ok hnext
    cases hnext
    exact h.addRoute hfree nofun
  | addBranch source router routes on =>
    obtain ⟨key, -, hnext⟩ := bind_eq_ok hnext
    obtain ⟨hfree, hnext⟩ := andThen_eq_ok.mp hnext
    obtain ⟨normalized, hnormalized, hnext⟩ := bind_eq_ok hnext
    cases hnext
    refine h.addRoute hfree ?_
    rintro _ _ ⟨⟩
    have hnil : (([] : List (String × DirectRoute S W)).map Prod.fst).Nodup := List.nodup_nil
    exact nodup_normalizeEntries hnil (andThen_eq_ok.mp hnormalized).2

theorem Distinct.declare {g last : StateGraph S W} {calls : List (BuilderCall S W)} (h : g.Distinct)
    (hlast : g.declare calls = .ok last) : last.Distinct := by
  induction calls generalizing g with
  | nil =>
    cases hlast
    exact h
  | cons call calls ih =>
    obtain ⟨next, hnext, hlast⟩ := bind_eq_ok hlast
    exact ih (h.apply hnext) hlast

/-- A direct route or a branch of `source` leads to `target`. -/
def Edge (source target : String) : Prop :=
  ∃ outcome route, ((source, outcome), route) ∈ g.routes ∧ target ∈ route.targets

/-- The node is reached from `entry` along any number of edges. -/
def Reachable (entry node : String) : Prop := Relation.ReflTransGen g.Edge entry node

structure Sound (entry : String) : Prop where
  entry_declared : entry ∈ g.stageNames
  outgoing : ∀ stage ∈ g.stageNames, ∃ outcome route, ((stage, outcome), route) ∈ g.routes
  source_declared : ∀ source outcome route, ((source, outcome), route) ∈ g.routes →
    source ∈ g.stageNames
  target_declared : ∀ key route, (key, route) ∈ g.routes → ∀ target ∈ route.targets,
    target ∈ g.stageNames ∨ target ∈ g.terminalNames
  errorOutcome_routed : ∀ stage definition, (stage, definition) ∈ g.stages →
    ∀ outcome, definition.policy.errorOutcome = some outcome →
      ∃ route, ((stage, outcome), route) ∈ g.routes
  stage_reachable : ∀ stage ∈ g.stageNames, g.Reachable entry stage
  terminal_reachable : ∃ terminal ∈ g.terminalNames, g.Reachable entry terminal

theorem mem_edges {source target : String} : (source, target) ∈ g.edges ↔ g.Edge source target := by
  simp only [edges, List.mem_flatMap, List.mem_map, Prod.mk.injEq, Edge]
  constructor
  · rintro ⟨⟨⟨source, outcome⟩, route⟩, hmem, target, htarget, rfl, rfl⟩
    exact ⟨outcome, route, hmem, htarget⟩
  · rintro ⟨outcome, route, hmem, htarget⟩
    exact ⟨((source, outcome), route), hmem, target, htarget, rfl, rfl⟩

theorem mem_reachableNodes {entry node : String} :
    node ∈ g.reachableNodes entry ↔ g.Reachable entry node := by
  unfold reachableNodes Reachable
  rw [mem_reachableFrom]
  simp only [mem_edges]

theorem validateRequiredNodes_eq_ok : g.validateRequiredNodes = .ok () ↔
    g.stages ≠ [] ∧ (∃ entry, g.entry = some entry ∧ entry ∈ g.stageNames) ∧ g.terminals ≠ [] ∧
      ∀ stage ∈ g.stageNames, ∃ outcome route, ((stage, outcome), route) ∈ g.routes := by
  unfold validateRequiredNodes
  simp only [andThen_eq_ok, require_eq_ok, sortedSet_eq_nil, List.filter_eq_nil_iff,
    decide_not, Bool.not_eq_true', decide_eq_false_iff_not, not_not, List.mem_map, Prod.exists,
    exists_and_right, exists_eq_right, Option.mem_def]

theorem validateRoutes_eq_ok : g.validateRoutes = .ok () ↔
    ∀ source outcome route, ((source, outcome), route) ∈ g.routes → source ∈ g.stageNames ∧
      ∀ target ∈ route.targets, target ∈ g.stageNames ∨ target ∈ g.terminalNames := by
  unfold validateRoutes validateRoute
  simp only [forM_eq_ok_iff, andThen_eq_ok, require_eq_ok, Prod.forall]

theorem validateStageRecoveryRoutes_eq_ok : g.validateStageRecoveryRoutes = .ok () ↔
    ∀ stage definition, (stage, definition) ∈ g.stages →
      ∀ outcome, definition.policy.errorOutcome = some outcome →
        ∃ route, ((stage, outcome), route) ∈ g.routes := by
  unfold validateStageRecoveryRoutes
  rw [forM_eq_ok_iff, Prod.forall]
  refine forall_congr' fun stage => forall_congr' fun definition => imp_congr_right fun _ => ?_
  cases h : definition.policy.errorOutcome with
  | none => simp [validateRecoveryRoute, h]
  | some outcome => simp [validateRecoveryRoute, h, require_eq_ok]

theorem validateReachability_eq_ok {entry : String} (h : g.entry = some entry) :
    g.validateReachability = .ok () ↔ (∀ stage ∈ g.stageNames, g.Reachable entry stage) ∧
      ∃ terminal ∈ g.terminalNames, g.Reachable entry terminal := by
  unfold validateReachability
  simp only [h, Option.getD_some, andThen_eq_ok, require_eq_ok, ne_eq, sortedSet_eq_nil,
    List.filter_eq_nil_iff, decide_not, Bool.not_eq_true', decide_eq_false_iff_not, not_not,
    mem_reachableNodes, decide_eq_true_eq, not_forall, exists_prop]

theorem compile_isOk_iff (settings : StateMachineSettings) :
    (∃ d, g.compile settings = .ok d) ↔ ∃ entry, g.entry = some entry ∧ g.Sound entry := by
  unfold compile
  simp only [andThen_eq_ok, validateRequiredNodes_eq_ok, validateRoutes_eq_ok,
    validateStageRecoveryRoutes_eq_ok]
  constructor
  · rintro ⟨d, ⟨-, ⟨entry, hentry, hdeclared⟩, -, houtgoing⟩, hroutes, hrecovery, hreach, -⟩
    obtain ⟨hstages, hterminal⟩ := (g.validateReachability_eq_ok hentry).mp hreach
    exact ⟨entry, hentry,
      { entry_declared := hdeclared
        outgoing := houtgoing
        source_declared := fun source outcome route hmem => (hroutes source outcome route hmem).1
        target_declared := fun key route hmem => (hroutes key.1 key.2 route hmem).2
        errorOutcome_routed := hrecovery
        stage_reachable := hstages
        terminal_reachable := hterminal }⟩
  · rintro ⟨entry, hentry, h⟩
    have hstages : g.stages ≠ [] := by
      intro hnil
      have hmem := h.entry_declared
      unfold stageNames at hmem
      rw [hnil] at hmem
      cases hmem
    have hterminals : g.terminals ≠ [] := by
      intro hnil
      obtain ⟨terminal, hmem, -⟩ := h.terminal_reachable
      unfold terminalNames at hmem
      rw [hnil] at hmem
      cases hmem
    refine ⟨_, ⟨hstages, ⟨entry, hentry, h.entry_declared⟩, hterminals, h.outgoing⟩, ?_,
      h.errorOutcome_routed, ?_, rfl⟩
    · intro source outcome route hmem
      exact ⟨h.source_declared source outcome route hmem, h.target_declared _ route hmem⟩
    · exact (g.validateReachability_eq_ok hentry).mpr ⟨h.stage_reachable, h.terminal_reachable⟩

theorem compile_eq {g : StateGraph S W} {settings : StateMachineSettings} {d : CompiledGraph S W}
    (h : g.compile settings = .ok d) :
    ∃ entry, g.entry = some entry ∧ g.Sound entry ∧ d =
      { stateContract := g.stateContract, stages := g.stages, entry := entry
        terminals := g.terminals, routes := g.routes, settings := settings } := by
  obtain ⟨entry, hentry, hsound⟩ := (g.compile_isOk_iff settings).mp ⟨d, h⟩
  refine ⟨entry, hentry, hsound, ?_⟩
  unfold compile at h
  simp only [andThen_eq_ok, hentry, Option.getD_some] at h
  exact (Except.ok.inj h.2.2.2.2).symm

end StateGraph

/-! ### The failures of a run -/

/-- Why a route selection at `stage` raises. -/
inductive RoutingFailure (d : CompiledGraph S W) (stage : String) : String → Prop where
  | undeclaredOutcome (outcome : String) (h : d.routes.lookup (stage, outcome) = none) :
    RoutingFailure d stage s!"No route is declared for stage '{stage}' outcome '{outcome}'."
  | failingRouter (outcome : String) (router : Router S W) (routes : List (String × DirectRoute S W))
    (context : RoutingContext S) (w : W) (typeName : String)
    (h : d.routes.lookup (stage, outcome) = some (.branch router routes))
    (hstage : context.stage = stage)
    (hraises : (router.route context w).1 = .error (.exception typeName)) :
    RoutingFailure d stage s!"Router '{router.name}' failed for stage '{stage}'."
  | undeclaredKey (outcome : String) (router : Router S W) (routes : List (String × DirectRoute S W))
    (context : RoutingContext S) (w : W) (rawKey : Option String) (shown : String)
    (h : d.routes.lookup (stage, outcome) = some (.branch router routes))
    (hstage : context.stage = stage) (hreturns : (router.route context w).1 = .ok rawKey)
    (hkey : routes.lookup ((rawKey.map strip).getD "") = none) :
    RoutingFailure d stage s!"Router '{router.name}' returned undeclared branch key '{shown}'."

/-- A failure that is allowed at `stage`: no graph node is missing, and a routing failure has its reason. -/
def Explained (d : CompiledGraph S W) (stage : String) : WorkflowFailure → Prop
  | .routing message => RoutingFailure d stage message
  | .keyError _ => False
  | _ => True

def StandsAt (stage : String) (run : WorkflowRun S W) : Prop := run.runtime.currentStage = stage

namespace WorkflowM

variable {α β : Type} {d : CompiledGraph S W} {env : Surroundings W} {stage : String}

/-- A program that stays at the stage; what it raises is explained there, and its value satisfies `Q`. -/
def Stays (d : CompiledGraph S W) (stage : String) (m : WorkflowM S W α) (Q : α → Prop) : Prop :=
  ∀ run, StandsAt stage run → wp (StandsAt stage) m (fun a run' => StandsAt stage run' ∧ Q a)
    (fun e run' => StandsAt stage run' ∧ Explained d stage e) run

namespace Stays

variable {m : WorkflowM S W α} {Q : α → Prop}

theorem mono {Q' : α → Prop} (h : Stays d stage m Q) (hQ : ∀ a, Q a → Q' a) : Stays d stage m Q' :=
  fun run hrun => wp_post (h run hrun) (fun a _ hh => ⟨hh.1, hQ a hh.2⟩) fun _ _ hh => hh

theorem pure {a : α} (ha : Q a) : Stays d stage (Pure.pure a) Q :=
  fun _ hrun => (wp_pure a).mpr ⟨hrun, ha⟩

theorem throw {e : WorkflowFailure} (he : Explained d stage e) :
    Stays d stage (Prog.throw e : WorkflowM S W α) Q :=
  fun _ hrun => (wp_throw e).mpr ⟨hrun, he⟩

theorem get : Stays d stage (Prog.get : WorkflowM S W (WorkflowRun S W)) (StandsAt stage) :=
  fun _ hrun => wp_get.mpr ⟨hrun, hrun⟩

theorem modify {f : WorkflowRun S W → WorkflowRun S W}
    (h : ∀ run, (f run).runtime.currentStage = run.runtime.currentStage) :
    Stays d stage (Prog.modify f) fun _ => True := by
  intro run hrun
  have hsame : StandsAt stage (f run) := (h run).trans hrun
  exact (wp_modify f).mpr ⟨hsame, hsame, trivial⟩

theorem bind {f : α → WorkflowM S W β} {R : β → Prop} (h : Stays d stage m Q)
    (hf : ∀ a, Q a → Stays d stage (f a) R) : Stays d stage (m >>= f) R :=
  fun run hrun => (wp_bind m f).mpr
    (wp_post (h run hrun) (fun a run' hh => hf a hh.2 run' hh.1) fun _ _ hh => hh)

theorem map {f : α → β} {R : β → Prop} (h : Stays d stage m Q) (hf : ∀ a, Q a → R (f a)) :
    Stays d stage (f <$> m) R :=
  fun run hrun => (wp_map f m).mpr
    (wp_post (h run hrun) (fun a _ hh => ⟨hh.1, hf a hh.2⟩) fun _ _ hh => hh)

theorem forM {l : List α} {f : α → WorkflowM S W PUnit}
    (hf : ∀ a ∈ l, Stays d stage (f a) fun _ => True) : Stays d stage (ForM.forM l f) fun _ => True := by
  induction l with
  | nil => exact Stays.pure trivial
  | cons a l ih =>
    rw [List.forM_cons]
    exact (hf a List.mem_cons_self).bind fun _ _ => ih fun b hb => hf b (List.mem_cons_of_mem a hb)

theorem modifyRuntime {change : RunState S → RunState S}
    (h : ∀ rt, (change rt).currentStage = rt.currentStage) :
    Stays d stage (modifyRuntime change : WorkflowM S W Unit) fun _ => True :=
  Stays.modify fun run => h run.runtime

end Stays

/-! ### Between two targets -/

theorem stays_call (f : Callback W α β) (a : α) :
    Stays d stage (call f a : WorkflowM S W (Except String β)) fun x =>
      ∃ w, (∀ b, x = .ok b → (f a w).1 = .ok b) ∧
        ∀ typeName, x = .error typeName → (f a w).1 = .error (.exception typeName) := by
  unfold call
  intro run hrun
  rw [wp_bind, wp_get, wp_bind, wp_modify]
  refine ⟨hrun, ?_⟩
  cases hf : (f a run.world).1 with
  | ok b =>
    refine (wp_pure _).mpr ⟨hrun, run.world, ?_, nofun⟩
    rintro b' ⟨⟩
    exact hf
  | error raised =>
    cases raised with
    | exception typeName =>
      refine (wp_pure _).mpr ⟨hrun, run.world, nofun, ?_⟩
      rintro typeName' ⟨⟩
      exact hf
    | baseException typeName => exact (wp_throw _).mpr ⟨hrun, trivial⟩

theorem stays_runtime : Stays d stage (runtime : WorkflowM S W (RunState S)) fun _ => True :=
  Stays.get.bind fun _ _ => Stays.pure trivial

theorem stays_notify (event : WorkflowEvent) (observer : Observer W) :
    Stays d stage (notify event observer : WorkflowM S W Unit) fun _ => True := by
  unfold notify
  refine (stays_call observer.onEvent event).bind fun x _ => ?_
  cases x with
  | ok b => exact Stays.pure trivial
  | error typeName => exact Stays.modify fun _ => rfl

theorem stays_emit (eventType : WorkflowEventType) (place : Option String) :
    Stays d stage (emit env eventType place : WorkflowM S W Unit) fun _ => True := by
  unfold emit
  refine Stays.get.bind fun run _ => ?_
  refine Stays.bind (Stays.modify ?_) fun _ _ => Stays.forM fun observer _ => stays_notify _ observer
  exact fun _ => rfl

theorem stays_orStateError (boundary : String) (x : Except String S) :
    Stays d stage (orStateError boundary x : WorkflowM S W S) fun _ => True := by
  cases x with
  | ok s => exact Stays.pure trivial
  | error e => exact Stays.throw trivial

theorem stays_normalizeClone (value : S) (boundary : String) :
    Stays d stage (normalizeClone d value boundary) fun _ => True := by
  unfold normalizeClone
  refine (stays_call _ _).bind fun x _ => (stays_orStateError _ x).bind fun s _ => ?_
  refine (stays_call _ _).bind fun y _ => (stays_orStateError _ y).bind fun s' _ => ?_
  exact (stays_call _ _).bind fun z _ => stays_orStateError _ z

theorem stays_snapshot (value : S) (boundary : String) :
    Stays d stage (snapshot d value boundary) fun _ => True := by
  unfold snapshot
  split
  · exact (stays_normalizeClone value boundary).map fun _ _ => trivial
  · exact Stays.pure trivial

theorem stays_inspectionResult (result : StageResult S) (boundary : String) :
    Stays d stage (inspectionResult d result boundary) fun _ => True :=
  (stays_normalizeClone _ _).bind fun _ _ => Stays.pure trivial

theorem stays_evaluate (context : ValidationContext S) (validators : List (Validator S W))
    (records : List (ValidationRecord S)) :
    Stays d stage (evaluate d env context validators records) fun _ => True := by
  induction validators generalizing records with
  | nil => exact Stays.pure trivial
  | cons validator validators ih =>
    unfold evaluate
    have hinvoke : Stays d stage (invokeValidator d validator context) fun _ => True := by
      refine (stays_call _ _).bind fun x _ => ?_
      cases x with
      | ok reply => cases reply <;> exact Stays.pure trivial
      | error typeName => exact Stays.pure trivial
    have hrecord : Stays d stage (evaluateOne d env validator context) fun _ => True :=
      hinvoke.bind fun _ _ => (stays_emit _ _).bind fun _ _ => Stays.pure trivial
    refine hrecord.bind fun record _ => ?_
    cases interpret d.settings record.result (records ++ [record]) with
    | some decision => exact Stays.pure trivial
    | none => exact ih _

/-! ### Stage work -/

theorem stays_nextVisit (name : String) :
    Stays d stage (nextVisit name : WorkflowM S W Nat) fun _ => True := by
  unfold nextVisit
  refine stays_runtime.bind fun rt _ => ?_
  exact Stays.bind (Stays.modifyRuntime fun _ => rfl) fun _ _ => Stays.pure trivial

theorem stays_addStage (record : StageExecution S) :
    Stays d stage (addStage record : WorkflowM S W Nat) fun _ => True := by
  unfold addStage
  refine stays_runtime.bind fun rt _ => ?_
  exact Stays.bind (Stays.modifyRuntime fun _ => rfl) fun _ _ => Stays.pure trivial

theorem stays_recordStageFailure (name : String) (visit attempt : Nat) (typeName : String) :
    Stays d stage (recordStageFailure env name visit attempt typeName : WorkflowM S W Unit)
      fun _ => True :=
  (stays_addStage _).bind fun _ _ => stays_emit _ _

theorem stays_normalizeStageResult (name : String) (value : Option (StageResult S)) :
    Stays d stage (normalizeStageResult d name value) fun x =>
      ∀ typeName failure, x = .error (typeName, failure) → Explained d stage failure := by
  cases value with
  | none =>
    refine Stays.pure ?_
    rintro _ _ ⟨⟩
    trivial
  | some value =>
    unfold normalizeStageResult
    refine (stays_call _ _).bind fun x _ => ?_
    cases x with
    | ok candidate => exact Stays.pure nofun
    | error typeName =>
      refine Stays.pure ?_
      rintro _ _ ⟨⟩
      trivial

theorem stays_recordCandidate (name : String) (visit attempt : Nat) (stateBefore : S)
    (result : StageResult S) :
    Stays d stage (recordCandidate d env name visit attempt stateBefore result) fun _ => True := by
  unfold recordCandidate
  refine (stays_snapshot _ _).bind fun before _ => (stays_snapshot _ _).bind fun candidate _ => ?_
  refine (stays_addStage _).bind fun index _ => (stays_emit _ _).bind fun _ _ => ?_
  exact Stays.pure trivial

theorem stays_invokeStage (definition : StageDefinition S W) (name : String) (visit attempt : Nat)
    (stageInput : S) :
    Stays d stage (invokeStage env definition name visit attempt stageInput) fun _ => True := by
  unfold invokeStage
  refine stays_runtime.bind fun rt _ => (stays_emit _ _).bind fun _ _ => ?_
  refine Stays.bind (Stays.modifyRuntime fun _ => rfl) fun _ _ => ?_
  exact (stays_call _ _).mono fun _ _ => trivial

theorem stays_finishAttempt (name : String) (visit attempt : Nat) (stateBefore : S)
    (value : Option (StageResult S)) :
    Stays d stage (finishAttempt d env name visit attempt stateBefore value) fun _ => True := by
  unfold finishAttempt
  refine (stays_normalizeStageResult _ _).bind fun x hx => ?_
  cases x with
  | ok result => exact stays_recordCandidate _ _ _ _ _
  | error failure =>
    exact (stays_recordStageFailure _ _ _ _).bind fun _ _ => Stays.throw (hx _ _ rfl)

theorem stays_waitBeforeRetry (policy : StagePolicy) (attempt : Nat) :
    Stays d stage (waitBeforeRetry env policy attempt : WorkflowM S W Unit) fun _ => True := by
  unfold waitBeforeRetry
  refine Stays.get.bind fun run _ => Stays.bind (Stays.modify fun _ => rfl) fun _ _ => ?_
  cases (env.sleep policy attempt run.world).1 with
  | none => exact Stays.pure trivial
  | some typeName => exact Stays.throw trivial

theorem stays_exhausted (policy : StagePolicy) (name : String) (attempt : Nat) :
    Stays d stage (exhausted policy name attempt : WorkflowM S W (StageAttempt S)) fun _ => True := by
  unfold exhausted
  refine stays_runtime.bind fun rt _ => ?_
  cases policy.errorOutcome with
  | none => exact Stays.throw trivial
  | some outcome => exact Stays.pure trivial

theorem stays_executeAttempts (definition : StageDefinition S W) (name : String)
    (visit remaining attempt : Nat) :
    Stays d stage (executeAttempts d env definition name visit remaining attempt) fun _ => True := by
  induction remaining generalizing attempt with
  | zero => exact Stays.throw trivial
  | succ remaining ih =>
    unfold executeAttempts cloneCommitted
    refine Stays.bind (stays_runtime.bind fun _ _ => stays_normalizeClone _ _) fun stateBefore _ => ?_
    refine (stays_normalizeClone _ _).bind fun stageInput _ => ?_
    refine (stays_invokeStage _ _ _ _ _).bind fun x _ => ?_
    cases x with
    | ok value => exact stays_finishAttempt _ _ _ _ _
    | error typeName =>
      refine (stays_recordStageFailure _ _ _ _).bind fun _ _ => ?_
      split
      · exact (stays_waitBeforeRetry _ _).bind fun _ _ => ih _
      · exact stays_exhausted _ _ _

theorem stays_raiseValidationError (name : String) (phase : ValidationPhase) {Q : α → Prop} :
    Stays d stage (raiseValidationError name phase : WorkflowM S W α) Q :=
  Stays.throw trivial

theorem stays_validateStage (definition : StageDefinition S W) (name : String)
    (attempt : StageAttempt S) :
    Stays d stage (validateStage d env definition name attempt) fun decision =>
      decision.source = name := by
  unfold validateStage
  refine (stays_inspectionResult _ _).bind fun inspection _ => ?_
  refine (stays_normalizeClone _ _).bind fun stateBefore _ => stays_runtime.bind fun rt _ => ?_
  refine (stays_evaluate _ _ _).bind fun validation _ => ?_
  have hattach : Stays d stage (attachStageValidations attempt.recordIndex validation.records :
      WorkflowM S W Unit) fun _ => True := by
    unfold attachStageValidations
    cases attempt.recordIndex with
    | none => exact Stays.pure trivial
    | some index => exact Stays.modifyRuntime fun _ => rfl
  refine hattach.bind fun _ _ => ?_
  unfold decideStage
  refine stays_runtime.bind fun rt _ => ?_
  split
  · exact stays_raiseValidationError _ _
  · split
    · exact Stays.pure rfl
    · exact stays_runtime.bind fun _ _ => Stays.pure rfl

theorem stays_runStage (hstage : stage ∈ d.stages.map Prod.fst) :
    Stays d stage (runStage d env stage) fun decision => decision.source = stage := by
  unfold runStage
  cases hlookup : d.stages.lookup stage with
  | none =>
    obtain ⟨entry, hentry, rfl⟩ := List.mem_map.mp hstage
    exact absurd (List.lookup_eq_none_iff.mp hlookup entry hentry) (by simp)
  | some definition =>
    refine (stays_nextVisit _).bind fun visit _ => ?_
    refine (stays_executeAttempts _ _ _ _ _).bind fun attempt _ => ?_
    cases attempt.handledError with
    | some feedback => exact stays_runtime.bind fun _ _ => Stays.pure rfl
    | none => exact stays_validateStage _ _ _

/-! ### Route selection -/

end WorkflowM

/-- What the static checks leave for a run to rely on. -/
structure CompiledGraph.Closed (d : CompiledGraph S W) : Prop where
  entry_declared : d.entry ∈ d.stages.map Prod.fst
  target_declared : ∀ key route, d.routes.lookup key = some route → ∀ target ∈ route.targets,
    target ∈ d.stages.map Prod.fst ∨ target ∈ d.terminals.map Prod.fst

theorem StateGraph.closed_of_compile {g : StateGraph S W} {settings : StateMachineSettings}
    {d : CompiledGraph S W} (h : g.compile settings = .ok d) : d.Closed := by
  obtain ⟨entry, -, hsound, rfl⟩ := compile_eq h
  exact ⟨hsound.entry_declared, fun key route hroute =>
    hsound.target_declared key route (mem_of_lookup hroute)⟩

namespace WorkflowM

variable {α β : Type} {d : CompiledGraph S W} {env : Surroundings W} {stage : String}
  {decision : StageDecision S}

def Aims (d : CompiledGraph S W) (selected : SelectedRoute S W) : Prop :=
  selected.target ∈ d.stages.map Prod.fst ∨ selected.target ∈ d.terminals.map Prod.fst

theorem stays_selectBranch (hclosed : d.Closed) {router : Router S W}
    {routes : List (String × DirectRoute S W)} (hsource : decision.source = stage)
    (hroute : d.routes.lookup (stage, decision.outcome) = some (.branch router routes)) :
    Stays d stage (selectBranch d decision router routes) (Aims d) := by
  unfold selectBranch
  refine (stays_inspectionResult _ _).bind fun inspection _ => ?_
  refine (stays_call _ _).bind fun x hx => ?_
  obtain ⟨w, hok, herror⟩ := hx
  cases x with
  | error typeName =>
    refine Stays.throw ?_
    rw [hsource]
    exact RoutingFailure.failingRouter _ router routes _ w typeName hroute hsource (herror _ rfl)
  | ok rawKey =>
    simp only
    cases hkey : routes.lookup ((rawKey.map strip).getD "") with
    | none =>
      refine Stays.throw ?_
      exact RoutingFailure.undeclaredKey _ router routes _ w rawKey _ hroute hsource (hok _ rfl) hkey
    | some destination =>
      refine Stays.pure (hclosed.target_declared _ _ hroute _ ?_)
      exact List.mem_map_of_mem (f := fun entry => entry.2.target) (mem_of_lookup hkey)

theorem stays_selectRoute (hclosed : d.Closed) (hsource : decision.source = stage) :
    Stays d stage (selectRoute d decision) (Aims d) := by
  unfold selectRoute
  refine Stays.bind (Stays.modifyRuntime fun _ => rfl) fun _ _ => ?_
  rw [hsource]
  cases hroute : d.routes.lookup (stage, decision.outcome) with
  | none => exact Stays.throw (RoutingFailure.undeclaredOutcome _ hroute)
  | some route =>
    cases route with
    | direct route => exact Stays.pure (hclosed.target_declared _ _ hroute _ (List.mem_singleton_self _))
    | branch router routes => exact stays_selectBranch hclosed hsource hroute

theorem stays_runGuards (selected : SelectedRoute S W) (sequence : Nat) :
    Stays d stage (runGuards d env decision selected sequence) fun _ => True := by
  unfold runGuards
  refine Stays.bind (Stays.modifyRuntime fun _ => rfl) fun _ _ => ?_
  refine (stays_inspectionResult _ _).bind fun inspection _ => stays_runtime.bind fun rt _ => ?_
  exact (stays_normalizeClone _ _).bind fun stateBefore _ => stays_evaluate _ _ _

theorem stays_appendTransitionRecord (sequence : Nat) (selected : SelectedRoute S W)
    (validation : ValidationDecision S) (accepted : Bool) :
    Stays d stage (appendTransitionRecord sequence decision selected validation accepted :
      WorkflowM S W Unit) fun _ => True :=
  Stays.modifyRuntime fun _ => rfl

theorem stays_settle (selected : SelectedRoute S W) (sequence : Nat)
    (validation : ValidationDecision S) :
    Stays d stage (settle d env decision selected sequence validation) fun _ => True := by
  unfold settle
  split
  · refine (stays_normalizeClone _ _).bind fun state _ => ?_
    refine Stays.bind (Stays.modifyRuntime fun _ => rfl) fun _ _ => ?_
    exact (stays_emit _ _).bind fun _ _ => Stays.modifyRuntime fun _ => rfl
  · exact Stays.modifyRuntime fun _ => rfl

theorem stays_redirectGuardRejection (validation : ValidationDecision S)
    (hsource : decision.source = stage) :
    Stays d stage (redirectGuardRejection d env decision validation) fun redirected =>
      redirected.source = stage := by
  unfold redirectGuardRejection
  exact (stays_emit _ _).bind fun _ _ => stays_runtime.bind fun _ _ => Stays.pure hsource

/-! ### Across targets -/

def Declared (d : CompiledGraph S W) (run : WorkflowRun S W) : Prop :=
  run.runtime.currentStage ∈ d.stages.map Prod.fst

theorem Declared.of_eq {run run' : WorkflowRun S W} (h : Declared d run)
    (heq : run'.runtime.currentStage = run.runtime.currentStage) : Declared d run' := by
  unfold Declared
  rw [heq]
  exact h

/-- Every state stands at a declared stage, and what is raised is explained where it is. -/
def Standing (d : CompiledGraph S W) (m : WorkflowM S W α) (Q : α → WorkflowRun S W → Prop)
    (run : WorkflowRun S W) : Prop :=
  wp (Declared d) m (fun a run' => Declared d run' ∧ Q a run')
    (fun e run' => Declared d run' ∧ Explained d run'.runtime.currentStage e) run

namespace Standing

variable {m : WorkflowM S W α} {Q : α → WorkflowRun S W → Prop} {run : WorkflowRun S W}

theorem pure {a : α} (hstage : Declared d run) (ha : Q a run) :
    Standing d (Pure.pure a) Q run := (wp_pure a).mpr ⟨hstage, ha⟩

theorem of_stays {P : α → Prop} (h : Stays d run.runtime.currentStage m P)
    (hstage : Declared d run) :
    Standing d m (fun a run' => run'.runtime.currentStage = run.runtime.currentStage ∧ P a) run := by
  have hdeclared : ∀ run' : WorkflowRun S W, StandsAt run.runtime.currentStage run' →
      Declared d run' := by
    exact fun run' hrun' => hstage.of_eq hrun'
  refine wp_mono (h run rfl) hdeclared (fun a run' hh => ⟨hdeclared run' hh.1, hh⟩) fun e run' hh => ?_
  refine ⟨hdeclared run' hh.1, ?_⟩
  rw [hh.1]
  exact hh.2

variable {R : β → WorkflowRun S W → Prop}

theorem bind {f : α → WorkflowM S W β} (h : Standing d m Q run)
    (hf : ∀ a run', Declared d run' → Q a run' →
      Standing d (f a) R run') : Standing d (m >>= f) R run :=
  (wp_bind m f).mpr (wp_post h (fun a run' hh => hf a run' hh.1 hh.2) fun _ _ hh => hh)

theorem map {f : α → β} (h : Standing d m Q run)
    (hQ : ∀ a run', Q a run' → R (f a) run') : Standing d (f <$> m) R run :=
  (wp_map f m).mpr (wp_post h (fun a run' hh => ⟨hh.1, hQ a run' hh.2⟩) fun _ _ hh => hh)

theorem mono {Q' : α → WorkflowRun S W → Prop} (h : Standing d m Q run)
    (hQ : ∀ a run', Q a run' → Q' a run') : Standing d m Q' run :=
  wp_post h (fun a run' hh => ⟨hh.1, hQ a run' hh.2⟩) fun _ _ hh => hh

theorem throw {e : WorkflowFailure} (hstage : Declared d run)
    (he : Explained d run.runtime.currentStage e) :
    Standing d (Prog.throw e : WorkflowM S W α) Q run := (wp_throw e).mpr ⟨hstage, he⟩

theorem of_stays_false (h : Stays d run.runtime.currentStage m fun _ => False)
    (hstage : Declared d run) : Standing d m Q run :=
  (of_stays h hstage).mono fun _ _ hh => hh.2.elim

theorem runtime_bind {f : RunState S → WorkflowM S W β}
    (h : Standing d (f run.runtime) R run) : Standing d (runtime >>= f) R run :=
  (wp_bind _ _).mpr ((wp_bind _ _).mpr (wp_get.mpr ((wp_pure _).mpr h)))

theorem stays_bind {f : α → WorkflowM S W β} {P : α → Prop}
    (hstage : Declared d run)
    (h : Stays d run.runtime.currentStage m P)
    (hf : ∀ a run', run'.runtime.currentStage = run.runtime.currentStage → P a →
      Standing d (f a) R run') : Standing d (m >>= f) R run :=
  (of_stays h hstage).bind fun a run' _ hh => hf a run' hh.1 hh.2

end Standing

variable {run : WorkflowRun S W}

theorem standing_enterTarget {selected : SelectedRoute S W} (haims : Aims d selected)
    (hstage : Declared d run) :
    Standing d (enterTarget d selected.target) (fun terminal _ => ∀ name ∈ terminal,
      (d.terminals.lookup name).isSome) run := by
  unfold enterTarget
  split
  next hterminal =>
    refine Standing.pure hstage ?_
    rintro name ⟨⟩
    exact hterminal
  next hterminal =>
    have htarget : selected.target ∈ d.stages.map Prod.fst := by
      refine haims.resolve_right fun hmem => hterminal ?_
      obtain ⟨entry, hentry, heq⟩ := List.mem_map.mp hmem
      rw [Option.isSome_iff_ne_none]
      intro hnone
      exact absurd (List.lookup_eq_none_iff.mp hnone entry hentry) (by simp [heq])
    unfold modifyRuntime
    refine (wp_bind _ _).mpr ((wp_modify _).mpr ⟨htarget, ?_⟩)
    exact Standing.pure htarget nofun

/-- What a transition attempt leaves: a declared terminal, a new stage, or a decision to retry here. -/
def Left (d : CompiledGraph S W) : Option String ⊕ StageDecision S → WorkflowRun S W → Prop
  | .inl terminal, _ => ∀ name ∈ terminal, (d.terminals.lookup name).isSome
  | .inr redirected, run => redirected.source = run.runtime.currentStage

theorem standing_tryTransition {selected : SelectedRoute S W} {sequence : Nat}
    (haims : Aims d selected) (hstage : Declared d run)
    (hsource : decision.source = run.runtime.currentStage) :
    Standing d (tryTransition d env decision selected sequence) (Left d) run := by
  unfold tryTransition
  refine Standing.stays_bind hstage (stays_runGuards selected sequence) fun guards run₁ h₁ _ => ?_
  have hstage₁ := hstage.of_eq h₁
  split
  · refine Standing.stays_bind hstage₁ (stays_appendTransitionRecord _ _ _ _) fun _ run₂ h₂ _ => ?_
    exact Standing.of_stays_false (stays_raiseValidationError _ _) (hstage₁.of_eq h₂)
  · split
    · have haccept : Standing d (acceptTransition d env decision selected sequence guards)
          (fun terminal _ => ∀ name ∈ terminal, (d.terminals.lookup name).isSome) run₁ :=
        Standing.stays_bind hstage₁ (stays_settle _ _ _) fun _ run₂ h₂ _ =>
          standing_enterTarget haims (hstage₁.of_eq h₂)
      refine haccept.bind fun terminal run₂ hstage₂ hterminal => ?_
      refine Standing.stays_bind hstage₂ (stays_appendTransitionRecord _ _ _ _) fun _ run₃ h₃ _ => ?_
      exact Standing.pure (hstage₂.of_eq h₃) hterminal
    · refine Standing.stays_bind hstage₁ (stays_appendTransitionRecord _ _ _ _) fun _ run₂ h₂ _ => ?_
      have hsource₂ : decision.source = run₂.runtime.currentStage := by rw [h₂, h₁, hsource]
      refine Standing.map (Standing.of_stays (stays_redirectGuardRejection _ hsource₂)
        (hstage₁.of_eq h₂)) fun redirected run₃ hh => ?_
      exact hh.2.trans hh.1.symm

theorem standing_advance (hclosed : d.Closed) (fuel : Nat) (hstage : Declared d run)
    (hsource : decision.source = run.runtime.currentStage) :
    Standing d (advance d env fuel decision) (fun terminal _ =>
      ∀ name ∈ terminal, (d.terminals.lookup name).isSome) run := by
  induction fuel generalizing decision run with
  | zero => exact Standing.throw hstage trivial
  | succ fuel ih =>
    unfold advance
    refine Standing.stays_bind hstage (stays_selectRoute hclosed hsource) fun selected run₁ h₁ haims => ?_
    have hconsume : Stays d run₁.runtime.currentStage (consumeTransition : WorkflowM S W Nat)
        fun _ => True :=
      stays_runtime.bind fun _ _ => Stays.bind (Stays.modifyRuntime fun _ => rfl) fun _ _ =>
        Stays.pure trivial
    refine Standing.stays_bind (hstage.of_eq h₁) hconsume fun sequence run₂ h₂ _ => ?_
    have hstage₂ := (hstage.of_eq h₁).of_eq h₂
    refine Standing.stays_bind hstage₂ (stays_emit _ _) fun _ run₃ h₃ _ => ?_
    have hstage₃ := hstage₂.of_eq h₃
    split
    · refine Standing.stays_bind hstage₃ (stays_appendTransitionRecord _ _ _ _) fun _ run₄ h₄ _ => ?_
      exact Standing.throw (hstage₃.of_eq h₄) trivial
    · have hsource₃ : decision.source = run₃.runtime.currentStage := by rw [h₃, h₂, h₁, hsource]
      refine (standing_tryTransition haims hstage₃ hsource₃).bind fun left run₄ hstage₄ hleft => ?_
      cases left with
      | inl terminal => exact Standing.pure hstage₄ hleft
      | inr redirected => exact ih hstage₄ hleft

theorem stays_finish {terminal : String} (h : (d.terminals.lookup terminal).isSome) :
    Stays d stage (finish d env terminal) fun _ => True := by
  unfold finish
  obtain ⟨status, hstatus⟩ := Option.isSome_iff_exists.mp h
  rw [hstatus]
  exact (stays_emit _ _).bind fun _ _ => Stays.get.bind fun _ _ => Stays.pure trivial

theorem standing_executeStages (hclosed : d.Closed) (fuel : Nat) (hstage : Declared d run) :
    Standing d (executeStages d env fuel) (fun _ _ => True) run := by
  induction fuel generalizing run with
  | zero => exact Standing.throw hstage trivial
  | succ fuel ih =>
    unfold executeStages
    refine Standing.runtime_bind ?_
    refine Standing.stays_bind hstage (stays_runStage hstage) fun decision run₁ h₁ hsource => ?_
    have hsource₁ : decision.source = run₁.runtime.currentStage := by rw [h₁, hsource]
    refine (standing_advance hclosed _ (hstage.of_eq h₁) hsource₁).bind
      fun terminal run₂ hstage₂ hterminal => ?_
    cases terminal with
    | none => exact ih hstage₂
    | some terminal =>
      exact (Standing.of_stays (stays_finish (hterminal terminal rfl)) hstage₂).mono fun _ _ _ => trivial

theorem standing_execute (hclosed : d.Closed) (fuel : Nat) (initialState : S)
    (hstage : Declared d run) :
    Standing d (execute d env fuel initialState) (fun _ _ => True) run := by
  unfold execute Standing
  rw [wp_tryCatch]
  have hbody : Standing d (do
      emit env .runStarted (some d.entry)
      let committed ← normalizeClone d initialState "initial_state"
      modifyRuntime fun rt => { rt with committedState := committed }
      executeStages d env fuel) (fun _ _ => True) run := by
    refine Standing.stays_bind hstage (stays_emit _ _) fun _ run₁ h₁ _ => ?_
    have hstage₁ := hstage.of_eq h₁
    refine Standing.stays_bind hstage₁ (stays_normalizeClone _ _) fun committed run₂ h₂ _ => ?_
    have hstage₂ := hstage₁.of_eq h₂
    refine Standing.stays_bind hstage₂ (Stays.modifyRuntime fun _ => rfl) fun _ run₃ h₃ _ => ?_
    exact standing_executeStages hclosed fuel (hstage₂.of_eq h₃)
  refine wp_post hbody (fun _ _ hh => hh) fun failure run₁ hfailed => ?_
  have hemit : Stays d run₁.runtime.currentStage (emitFailure env : WorkflowM S W Unit)
      fun _ => True := by
    refine stays_runtime.bind fun rt _ run₂ hrun₂ => (wp_tryCatch _ _).mpr ?_
    have hevent : Stays d run₁.runtime.currentStage (emit env .runFailed (some rt.currentStage) :
        WorkflowM S W Unit) fun _ => True := stays_emit _ _
    exact wp_post (hevent run₂ hrun₂) (fun _ _ hh => hh) fun _ _ hh =>
      (wp_pure _).mpr ⟨hh.1, trivial⟩
  refine Standing.stays_bind hfailed.1 hemit fun _ run₂ h₂ _ => ?_
  refine Standing.throw (hfailed.1.of_eq h₂) ?_
  rw [h₂]
  exact hfailed.2

end WorkflowM

/-! ### Compilation and runs -/

/-- For a declaration without errors the keys are distinct, and compilation succeeds exactly when the
declared graph is sound; a run of what it compiled to stands at a declared stage throughout and misses no
node of the graph. -/
theorem compiles_iff_sound_and_runs_explained (contract : StateContract S W)
    (calls : List (BuilderCall S W)) (g : StateGraph S W)
    (hdeclare : StateGraph.declare { stateContract := contract } calls = .ok g)
    (settings : StateMachineSettings) :
    g.Distinct ∧
      ((∃ d, g.compile settings = .ok d) ↔ ∃ entry, g.entry = some entry ∧ g.Sound entry) ∧
      ∀ d, g.compile settings = .ok d → ∀ (env : Surroundings W) (fuel : Nat) (initialState : S)
        (world : W),
        let run := WorkflowM.execute d env fuel initialState (WorkflowRun.start d initialState world)
        (∀ passed ∈ run.visited, passed.runtime.currentStage ∈ g.stageNames) ∧
          run.final.runtime.currentStage ∈ g.stageNames ∧
          ∀ failure, run.result = .error failure →
            Explained d run.final.runtime.currentStage failure := by
  have hempty : ({ stateContract := contract } : StateGraph S W).Distinct :=
    ⟨List.nodup_nil, List.nodup_nil, nofun⟩
  refine ⟨hempty.declare hdeclare, g.compile_isOk_iff settings, fun d hcompile env fuel initialState world => ?_⟩
  have hclosed := StateGraph.closed_of_compile hcompile
  have hstages : d.stages.map Prod.fst = g.stageNames := by
    obtain ⟨entry, -, -, rfl⟩ := StateGraph.compile_eq hcompile
    rfl
  have hrun : WorkflowM.Standing d (WorkflowM.execute d env fuel initialState) (fun _ _ => True)
      (WorkflowRun.start d initialState world) :=
    WorkflowM.standing_execute hclosed fuel initialState hclosed.entry_declared
  unfold WorkflowM.Standing WorkflowM.Declared at hrun
  rw [hstages] at hrun
  obtain ⟨hok, herror⟩ := wp_ends hrun
  refine ⟨hrun.1, ?_, fun failure hfailure => (herror failure hfailure).2⟩
  cases hresult : (WorkflowM.execute d env fuel initialState
      (WorkflowRun.start d initialState world)).result with
  | ok result => exact (hok result hresult).1
  | error failure => exact (herror failure hresult).1

section

def idleStage : Stage Unit Unit := fun _ w => (.ok (some ⟨(), "success"⟩), w)

def idleContract : StateContract Unit Unit where
  validate s w := (.ok s, w)
  clone s w := (.ok s, w)

def idleCalls : List (BuilderCall Unit Unit) :=
  [.addStage "draft" idleStage [] {}, .setEntry "draft", .addStage "review" idleStage [] {},
    .addTerminal "done" (.text "succeeded"), .addTransition "draft" "review" "success" [],
    .addTransition "review" "draft" "rejected" [], .addTransition "review" "done" "success" []]

def idleGraph : StateGraph Unit Unit where
  stateContract := idleContract
  stages := [("draft", ⟨idleStage, [], {}⟩), ("review", ⟨idleStage, [], {}⟩)]
  entry := some "draft"
  terminals := [("done", .succeeded)]
  routes := [(("draft", "success"), .direct ⟨"review", []⟩),
    (("review", "rejected"), .direct ⟨"draft", []⟩), (("review", "success"), .direct ⟨"done", []⟩)]

theorem idleGraph_sound : idleGraph.Sound "draft" := by
  have hstages : ∀ stage ∈ idleGraph.stageNames, stage = "draft" ∨ stage = "review" := by
    simp [idleGraph, StateGraph.stageNames]
  have hdone : "done" ∈ idleGraph.reachableNodes "draft" := by decide
  refine ⟨by decide, ?_, ?_, ?_, ?_, ?_, "done", by decide, idleGraph.mem_reachableNodes.mp hdone⟩
  · intro stage hstage
    rcases hstages stage hstage with rfl | rfl
    · exact ⟨"success", _, List.mem_cons_self⟩
    · exact ⟨"rejected", _, List.mem_cons_of_mem _ List.mem_cons_self⟩
  · intro source outcome route hroute
    simp only [idleGraph, List.mem_cons, Prod.mk.injEq, List.not_mem_nil, or_false] at hroute
    rcases hroute with ⟨⟨rfl, -⟩, -⟩ | ⟨⟨rfl, -⟩, -⟩ | ⟨⟨rfl, -⟩, -⟩ <;> decide
  · intro key route hroute target htarget
    simp only [idleGraph, List.mem_cons, Prod.mk.injEq, List.not_mem_nil, or_false] at hroute
    rcases hroute with ⟨-, rfl⟩ | ⟨-, rfl⟩ | ⟨-, rfl⟩ <;>
      · rw [List.mem_singleton.mp htarget]
        decide
  · intro stage definition hstage outcome houtcome
    simp only [idleGraph, List.mem_cons, Prod.mk.injEq, List.not_mem_nil, or_false] at hstage
    rcases hstage with ⟨-, rfl⟩ | ⟨-, rfl⟩ <;> cases houtcome
  · intro stage hstage
    have hreached : stage ∈ idleGraph.reachableNodes "draft" := by
      rcases hstages stage hstage with rfl | rfl <;> decide
    exact idleGraph.mem_reachableNodes.mp hreached

theorem compiles_iff_sound_and_runs_explained_idle :
    StateGraph.declare { stateContract := idleContract } idleCalls = .ok idleGraph ∧
      ∃ d, idleGraph.compile {} = .ok d ∧
        ∀ passed ∈ (WorkflowM.execute d ⟨[], fun _ _ w => (none, w)⟩ 8 ()
          (WorkflowRun.start d () ())).visited, passed.runtime.currentStage ∈ ["draft", "review"] := by
  have hdeclare : StateGraph.declare { stateContract := idleContract } idleCalls = .ok idleGraph := rfl
  obtain ⟨-, hcompiles, hruns⟩ :=
    compiles_iff_sound_and_runs_explained idleContract idleCalls idleGraph hdeclare {}
  obtain ⟨d, hd⟩ := hcompiles.mpr ⟨"draft", rfl, idleGraph_sound⟩
  exact ⟨hdeclare, d, hd, (hruns d hd _ 8 () ()).1⟩

end

end VidbyteSdk.Workflows
