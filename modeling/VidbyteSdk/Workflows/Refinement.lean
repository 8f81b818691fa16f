import VidbyteSdk.Workflows.Moves

/-!
# Every run is a sequence of moves

The refinement behind `execute_reaches`, one lemma for each function of the machine, in the order of
`Machine`. A lemma says from which phase the function starts, in which it ends, and that every state in
between is one of moves.
-/

namespace VidbyteSdk.Workflows

open VidbyteSdk.Lib Prog

variable {S W : Type}

def At (d : CompiledGraph S W) (initialState : S) (phase : Phase S W) (run : WorkflowRun S W) : Prop :=
  Reaches d initialState ⟨phase, run.runtime, run.committedEvents⟩

/-- The run stands somewhere in a sequence of moves. -/
def Reached (d : CompiledGraph S W) (initialState : S) (run : WorkflowRun S W) : Prop :=
  ∃ phase, At d initialState phase run

/-- What stage work leaves alone. -/
def Kept (run run' : WorkflowRun S W) : Prop :=
  run'.runtime.currentStage = run.runtime.currentStage ∧
    run'.runtime.transitionCount = run.runtime.transitionCount

namespace Kept

variable {a b c : WorkflowRun S W}

theorem trans (hab : Kept a b) (hbc : Kept b c) : Kept a c :=
  ⟨hbc.1.trans hab.1, hbc.2.trans hab.2⟩

end Kept

theorem Observed.kept {a b : WorkflowRun S W} (h : Observed a b) : Kept a b := by
  unfold Kept
  rw [h.1]
  exact ⟨rfl, rfl⟩

section

variable {d : CompiledGraph S W} {initialState : S} {phase phase' : Phase S W}
  {run run' : WorkflowRun S W}

theorem At.reached (h : At d initialState phase run) : Reached d initialState run := ⟨phase, h⟩

theorem At.of_observed (h : At d initialState phase run) (hobs : Observed run run') :
    At d initialState phase run' := by
  unfold At
  rw [hobs.1, hobs.2]
  exact h

theorem At.move (h : At d initialState phase run)
    (hmove : Move d ⟨phase, run.runtime, run.committedEvents⟩
      ⟨phase', run'.runtime, run'.committedEvents⟩) : At d initialState phase' run' := by
  obtain ⟨start, hstart, hmoves⟩ := h
  exact ⟨start, hstart, hmoves.tail hmove⟩

end

namespace WorkflowM

variable {α β : Type} {d : CompiledGraph S W} {env : Surroundings W} {initialState : S}
  {phase phase' : Phase S W} {run : WorkflowRun S W}

/-- Every state of the run is one of moves, and only the loops need fuel. -/
def Runs (d : CompiledGraph S W) (initialState : S) (m : WorkflowM S W α) (run : WorkflowRun S W)
    (Q : α → WorkflowRun S W → Prop) : Prop :=
  wp (Reached d initialState) m Q (fun e run' => Reached d initialState run' ∧ e ≠ .outOfFuel) run

namespace Runs

variable {m : WorkflowM S W α} {Q Q' : α → WorkflowRun S W → Prop}

theorem mono (h : Runs d initialState m run Q) (hQ : ∀ a run', Q a run' → Q' a run') :
    Runs d initialState m run Q' :=
  wp_post h hQ fun _ _ hh => hh

theorem pure {a : α} (ha : Q a run) : Runs d initialState (Pure.pure a) run Q :=
  (wp_pure a).mpr ha

theorem throw {e : WorkflowFailure} (h : Reached d initialState run) (he : e ≠ .outOfFuel) :
    Runs d initialState (Prog.throw e : WorkflowM S W α) run Q :=
  (wp_throw e).mpr ⟨h, he⟩

theorem bind {f : α → WorkflowM S W β} {R : β → WorkflowRun S W → Prop}
    (h : Runs d initialState m run Q) (hf : ∀ a run', Q a run' → Runs d initialState (f a) run' R) :
    Runs d initialState (m >>= f) run R :=
  (wp_bind m f).mpr (wp_post h hf fun _ _ hh => hh)

theorem of_observes {P : α → Prop} (h : Observes m run P) (hat : At d initialState phase run) :
    Runs d initialState m run fun a run' => Observed run run' ∧ At d initialState phase run' ∧ P a :=
  wp_mono h (fun _ ht => (hat.of_observed ht).reached)
    (fun _ _ ht => ⟨ht.1, hat.of_observed ht.1, ht.2⟩)
    fun _ _ ht => ⟨(hat.of_observed ht.1).reached, ht.2⟩

variable {change : RunState S → RunState S}

theorem modifyRuntime (hat : At d initialState phase run)
    (hmove : Move d ⟨phase, run.runtime, run.committedEvents⟩
      ⟨phase', change run.runtime, run.committedEvents⟩) :
    Runs d initialState (modifyRuntime change) run fun _ run' =>
      At d initialState phase' run' ∧ run'.runtime = change run.runtime := by
  have hat' : At d initialState phase' { run with runtime := change run.runtime } := hat.move hmove
  unfold Runs WorkflowM.modifyRuntime
  rw [wp_modify]
  exact ⟨hat'.reached, hat', rfl⟩

theorem modifyRuntime_kept (hat : At d initialState phase run)
    (hmove : Move d ⟨phase, run.runtime, run.committedEvents⟩
      ⟨phase', change run.runtime, run.committedEvents⟩)
    (hstage : (change run.runtime).currentStage = run.runtime.currentStage)
    (hcount : (change run.runtime).transitionCount = run.runtime.transitionCount) :
    Runs d initialState (WorkflowM.modifyRuntime change) run fun _ run' =>
      At d initialState phase' run' ∧ Kept run run' := by
  refine (Runs.modifyRuntime hat hmove).mono fun _ run' h => ⟨h.1, ?_⟩
  unfold Kept
  rw [h.2]
  exact ⟨hstage, hcount⟩

end Runs

/-! ### Stage work -/

theorem addStage_runs {record : StageExecution S} (hat : At d initialState phase run)
    (hmove : Move d ⟨phase, run.runtime, run.committedEvents⟩
      ⟨phase', { run.runtime with stages := run.runtime.stages ++ [record] }, run.committedEvents⟩) :
    Runs d initialState (addStage record) run fun index run' =>
      At d initialState phase' run' ∧ Kept run run' ∧ index = run.runtime.stages.length := by
  unfold addStage
  refine (Runs.of_observes observes_runtime hat).bind fun rt run₁ h₁ => ?_
  obtain ⟨hobs, hat₁, rfl⟩ := h₁
  have hmove₁ : Move d ⟨phase, run₁.runtime, run₁.committedEvents⟩
      ⟨phase', { run₁.runtime with stages := run₁.runtime.stages ++ [record] },
        run₁.committedEvents⟩ := by
    rw [hobs.1, hobs.2]
    exact hmove
  refine (Runs.modifyRuntime_kept hat₁ hmove₁ rfl rfl).bind fun _ run₂ h₂ => ?_
  exact Runs.pure ⟨h₂.1, hobs.kept.trans h₂.2, rfl⟩

variable {definition : StageDefinition S W}

theorem recordStageFailure_runs {stage typeName : String}
    {visit attempt : Nat} (hat : At d initialState (.invoked definition visit attempt) run)
    (hstage : run.runtime.currentStage = stage) :
    Runs d initialState (recordStageFailure env stage visit attempt typeName) run fun _ run' =>
      At d initialState (.failed definition visit attempt) run' ∧ Kept run run' := by
  unfold recordStageFailure
  refine (addStage_runs hat (Move.fail ⟨hstage.symm, rfl, rfl, rfl, rfl⟩)).bind fun _ run₁ h₁ => ?_
  refine (Runs.of_observes (observes_emit (by simp) _) h₁.1).mono fun _ run₂ h₂ => ?_
  exact ⟨h₂.2.1, h₁.2.1.trans h₂.1.kept⟩

theorem observes_normalizeStageResult (stage : String) (value : Option (StageResult S)) :
    Observes (normalizeStageResult d stage value) run fun x =>
      ∀ typeName failure, x = .error (typeName, failure) → failure ≠ .outOfFuel := by
  cases value with
  | none =>
    refine Observes.pure fun typeName failure h => ?_
    cases h
    simp
  | some value =>
    unfold normalizeStageResult
    refine (observes_call _ _).bind fun x _ _ _ => ?_
    cases x with
    | ok s => exact Observes.pure fun _ _ h => by cases h
    | error e =>
      refine Observes.pure fun typeName failure h => ?_
      cases h
      simp

variable {stage : String}

theorem recordCandidate_runs {visit attempt : Nat} {stateBefore : S} {result : StageResult S}
    (hat : At d initialState (.invoked definition visit attempt) run)
    (hstage : run.runtime.currentStage = stage) :
    Runs d initialState (recordCandidate d env stage visit attempt stateBefore result) run
      fun a run' => At d initialState (.attempted definition a) run' ∧ Kept run run' ∧
        a.handledError = none ∧ a.recordIndex.isSome := by
  unfold recordCandidate
  refine (Runs.of_observes (observes_snapshot _ _) hat).bind fun before run₁ h₁ => ?_
  refine (Runs.of_observes (observes_snapshot _ _) h₁.2.1).bind fun candidate run₂ h₂ => ?_
  have hobs := h₁.1.trans h₂.1
  let a : StageAttempt S :=
    { stateBefore := stateBefore, stageResult := result
      recordIndex := some run₂.runtime.stages.length }
  have hrecord : IsCandidate run₂.runtime.currentStage visit attempt a.stageResult.state
      { stage := stage, visit := visit, attempt := attempt, outcome := some result.outcome
        stateBefore := before, candidateState := candidate, candidate := some result.state } := by
    refine ⟨?_, rfl, rfl, rfl, rfl, rfl⟩
    rw [hobs.1]
    exact hstage.symm
  refine (addStage_runs h₂.2.1 (Move.candidate hrecord rfl)).bind fun index run₃ h₃ => ?_
  obtain ⟨hat₃, hkept₃, rfl⟩ := h₃
  refine (Runs.of_observes (observes_emit (by simp) _) hat₃).bind fun _ run₄ h₄ => ?_
  exact Runs.pure ⟨h₄.2.1, (hobs.kept.trans hkept₃).trans h₄.1.kept, rfl, rfl⟩

theorem invokeStage_runs {visit attempt : Nat}
    {stageInput : S} (hat : At d initialState (.attempting definition visit attempt) run) :
    Runs d initialState (invokeStage env definition stage visit attempt stageInput) run
      fun _ run' => At d initialState (.invoked definition visit attempt) run' ∧ Kept run run' := by
  unfold invokeStage
  refine (Runs.of_observes observes_runtime hat).bind fun rt run₁ h₁ => ?_
  refine (Runs.of_observes (observes_emit (by simp) _) h₁.2.1).bind fun _ run₂ h₂ => ?_
  refine (Runs.modifyRuntime_kept h₂.2.1 Move.invoke rfl rfl).bind fun _ run₃ h₃ => ?_
  refine (Runs.of_observes (observes_call _ _) h₃.1).mono fun _ run₄ h₄ => ⟨h₄.2.1, ?_⟩
  exact ((h₁.1.trans h₂.1).kept.trans h₃.2).trans h₄.1.kept

theorem finishAttempt_runs {visit attempt : Nat}
    {stateBefore : S} {value : Option (StageResult S)}
    (hat : At d initialState (.invoked definition visit attempt) run)
    (hstage : run.runtime.currentStage = stage) :
    Runs d initialState (finishAttempt d env stage visit attempt stateBefore value) run
      fun a run' => At d initialState (.attempted definition a) run' ∧ Kept run run' ∧
        a.handledError = none ∧ a.recordIndex.isSome := by
  unfold finishAttempt
  refine (Runs.of_observes (observes_normalizeStageResult stage value) hat).bind fun x run₁ h₁ => ?_
  obtain ⟨hobs, hat₁, hx⟩ := h₁
  have hstage₁ : run₁.runtime.currentStage = stage := hobs.kept.1.trans hstage
  cases x with
  | ok result =>
    refine (recordCandidate_runs hat₁ hstage₁).mono fun a run₂ h₂ => ?_
    exact ⟨h₂.1, hobs.kept.trans h₂.2.1, h₂.2.2⟩
  | error e =>
    obtain ⟨typeName, failure⟩ := e
    refine (recordStageFailure_runs hat₁ hstage₁).bind fun _ run₂ h₂ => ?_
    exact Runs.throw h₂.1.reached (hx typeName failure rfl)

theorem observes_waitBeforeRetry (policy : StagePolicy) (attempt : Nat) :
    Observes (waitBeforeRetry env policy attempt : WorkflowM S W Unit) run fun _ => True := by
  unfold Observes waitBeforeRetry
  rw [wp_bind, wp_get, wp_bind, wp_modify]
  refine ⟨Observed.refl run, ?_⟩
  cases (env.sleep policy attempt run.world).1 with
  | none => exact (wp_pure _).mpr ⟨⟨rfl, rfl⟩, trivial⟩
  | some typeName => exact (wp_throw _).mpr ⟨⟨rfl, rfl⟩, by simp⟩

theorem observes_exhausted (policy : StagePolicy) (stage : String) (attempt : Nat) :
    Observes (exhausted policy stage attempt : WorkflowM S W (StageAttempt S)) run
      fun a => a.handledError.isSome := by
  unfold exhausted
  refine observes_runtime.bind fun rt _ _ _ => ?_
  cases policy.errorOutcome with
  | some outcome => exact Observes.pure rfl
  | none => exact Observes.throw (by simp)

theorem executeAttempts_runs {visit : Nat}
    (remaining attempt : Nat) (hat : At d initialState (.attempting definition visit attempt) run)
    (hstage : run.runtime.currentStage = stage) :
    Runs d initialState (executeAttempts d env definition stage visit remaining attempt) run
      fun a run' => Kept run run' ∧
        (a.handledError = none ∧ a.recordIndex.isSome ∧
            At d initialState (.attempted definition a) run' ∨
          a.handledError.isSome ∧ ∃ last, At d initialState (.failed definition visit last) run') := by
  induction remaining generalizing attempt run with
  | zero => exact Runs.throw hat.reached (by simp)
  | succ remaining ih =>
    unfold executeAttempts
    refine (Runs.of_observes (observes_cloneCommitted stage) hat).bind fun stateBefore run₁ h₁ => ?_
    refine (Runs.of_observes (observes_normalizeClone _ _) h₁.2.1).bind fun input run₂ h₂ => ?_
    have hkept₂ : Kept run run₂ := (h₁.1.trans h₂.1).kept
    refine (invokeStage_runs h₂.2.1).bind fun x run₃ h₃ => ?_
    have hkept₃ : Kept run run₃ := hkept₂.trans h₃.2
    have hstage₃ : run₃.runtime.currentStage = stage := hkept₃.1.trans hstage
    cases x with
    | ok value =>
      refine (finishAttempt_runs h₃.1 hstage₃).mono fun a run₄ h₄ => ?_
      exact ⟨hkept₃.trans h₄.2.1, Or.inl ⟨h₄.2.2.1, h₄.2.2.2, h₄.1⟩⟩
    | error typeName =>
      refine (recordStageFailure_runs h₃.1 hstage₃).bind fun _ run₄ h₄ => ?_
      have hkept₄ : Kept run run₄ := hkept₃.trans h₄.2
      split
      · next hretry =>
        refine (Runs.of_observes (observes_waitBeforeRetry _ _) h₄.1).bind fun _ run₅ h₅ => ?_
        have hkept₅ : Kept run run₅ := hkept₄.trans h₅.1.kept
        have hat₅ : At d initialState (.attempting definition visit (attempt + 1)) run₅ :=
          h₅.2.1.move (Move.retry hretry.1)
        refine (ih (attempt + 1) hat₅ (hkept₅.1.trans hstage)).mono fun a run₆ h₆ => ?_
        exact ⟨hkept₅.trans h₆.1, h₆.2⟩
      · refine (Runs.of_observes (observes_exhausted _ stage attempt) h₄.1).mono fun a run₅ h₅ => ?_
        exact ⟨hkept₄.trans h₅.1.kept, Or.inr ⟨h₅.2.2, attempt, h₅.2.1⟩⟩

variable {validation : ValidationDecision S} {attempt : StageAttempt S}

theorem attachStageValidations_runs (hat : At d initialState (.attempted definition attempt) run)
    (hindex : attempt.recordIndex.isSome)
    (hgates : GatesHold d definition.validators attempt.stageResult.state validation) :
    Runs d initialState (attachStageValidations attempt.recordIndex validation.records) run
      fun _ run' => At d initialState (.gated attempt validation) run' ∧ Kept run run' := by
  obtain ⟨index, hindex⟩ := Option.isSome_iff_exists.mp hindex
  rw [hindex]
  exact Runs.modifyRuntime_kept hat (Move.gate hindex hgates) rfl rfl

theorem decideStage_runs (hat : At d initialState (.gated attempt validation) run)
    (hstage : run.runtime.currentStage = stage) :
    Runs d initialState (decideStage d stage attempt validation) run fun decision run' =>
      At d initialState (.deciding decision) run' ∧ Kept run run' := by
  unfold decideStage
  refine (Runs.of_observes observes_runtime hat).bind fun rt run₁ h₁ => ?_
  obtain ⟨hobs, hat₁, rfl⟩ := h₁
  have hsource : stage = run₁.runtime.currentStage := (hobs.kept.1.trans hstage).symm
  split
  · exact Runs.throw hat₁.reached (by simp)
  split
  · next hpassed =>
    exact Runs.pure ⟨hat₁.move (Move.accept hpassed hsource rfl rfl rfl rfl rfl), hobs.kept⟩
  · unfold rejectedStageDecision
    refine (Runs.of_observes observes_runtime hat₁).bind fun rt run₂ h₂ => ?_
    have hsource₂ : stage = run₂.runtime.currentStage := hsource.trans h₂.1.kept.1.symm
    exact Runs.pure ⟨h₂.2.1.move (Move.reject hsource₂ rfl rfl rfl), hobs.kept.trans h₂.1.kept⟩

theorem validateStage_runs (hat : At d initialState (.attempted definition attempt) run)
    (hindex : attempt.recordIndex.isSome) (hstage : run.runtime.currentStage = stage) :
    Runs d initialState (validateStage d env definition stage attempt) run fun decision run' =>
      At d initialState (.deciding decision) run' ∧ Kept run run' := by
  unfold validateStage
  refine (Runs.of_observes (observes_inspectionResult _ _) hat).bind fun inspection run₁ h₁ => ?_
  refine (Runs.of_observes (observes_normalizeClone _ _) h₁.2.1).bind fun before run₂ h₂ => ?_
  refine (Runs.of_observes observes_runtime h₂.2.1).bind fun rt run₃ h₃ => ?_
  refine (Runs.of_observes (observes_evaluate _ _ _) h₃.2.1).bind fun validation run₄ h₄ => ?_
  have hkept₄ : Kept run run₄ := (((h₁.1.trans h₂.1).trans h₃.1).trans h₄.1).kept
  have hgates : GatesHold d definition.validators attempt.stageResult.state validation := by
    intro hpassed hlawful
    obtain ⟨records, hrecords, hall⟩ := h₄.2.2 hpassed
    rw [List.nil_append] at hrecords
    rw [hrecords]
    simpa only [h₁.2.2 hlawful] using hall
  refine (attachStageValidations_runs h₄.2.1 hindex hgates).bind fun _ run₅ h₅ => ?_
  have hkept₅ : Kept run run₅ := hkept₄.trans h₅.2
  refine (decideStage_runs h₅.1 (hkept₅.1.trans hstage)).mono fun decision run₆ h₆ => ?_
  exact ⟨h₆.1, hkept₅.trans h₆.2⟩

theorem handledStageError_runs {visit last : Nat} {feedback : WorkflowFeedback}
    (hat : At d initialState (.failed definition visit last) run)
    (hstage : run.runtime.currentStage = stage) :
    Runs d initialState (handledStageError stage attempt feedback) run fun decision run' =>
      At d initialState (.deciding decision) run' ∧ Kept run run' := by
  unfold handledStageError
  refine (Runs.of_observes observes_runtime hat).bind fun rt run₁ h₁ => ?_
  have hsource : stage = run₁.runtime.currentStage := (h₁.1.kept.1.trans hstage).symm
  exact Runs.pure ⟨h₁.2.1.move (Move.giveUp hsource rfl rfl rfl), h₁.1.kept⟩

theorem nextVisit_runs (hat : At d initialState .idle run) (hstage : run.runtime.currentStage = stage)
    (hlookup : d.stages.lookup stage = some definition) :
    Runs d initialState (nextVisit stage) run fun visit run' =>
      At d initialState (.attempting definition visit 1) run' ∧ Kept run run' := by
  unfold nextVisit
  refine (Runs.of_observes observes_runtime hat).bind fun rt run₁ h₁ => ?_
  obtain ⟨hobs, hat₁, rfl⟩ := h₁
  have hstage₁ : run₁.runtime.currentStage = stage := hobs.kept.1.trans hstage
  subst hstage₁
  rw [← hobs.1]
  refine (Runs.modifyRuntime_kept hat₁ (Move.visit hlookup) rfl rfl).bind fun _ run₂ h₂ => ?_
  exact Runs.pure ⟨h₂.1, hobs.kept.trans h₂.2⟩

theorem runStage_runs (hat : At d initialState .idle run)
    (hstage : run.runtime.currentStage = stage) :
    Runs d initialState (runStage d env stage) run fun decision run' =>
      At d initialState (.deciding decision) run' ∧ Kept run run' := by
  unfold runStage
  cases hlookup : d.stages.lookup stage with
  | none => exact Runs.throw hat.reached (by simp)
  | some definition =>
    refine (nextVisit_runs hat hstage hlookup).bind fun visit run₁ h₁ => ?_
    have hstage₁ : run₁.runtime.currentStage = stage := h₁.2.1.trans hstage
    refine (executeAttempts_runs _ 1 h₁.1 hstage₁).bind fun attempt run₂ h₂ => ?_
    have hkept₂ : Kept run run₂ := h₁.2.trans h₂.1
    have hstage₂ : run₂.runtime.currentStage = stage := hkept₂.1.trans hstage
    rcases h₂.2 with ⟨hnone, hindex, hat₂⟩ | ⟨hsome, last, hat₂⟩
    · rw [hnone]
      refine (validateStage_runs hat₂ hindex hstage₂).mono fun decision run₃ h₃ => ?_
      exact ⟨h₃.1, hkept₂.trans h₃.2⟩
    · obtain ⟨feedback, hfeedback⟩ := Option.isSome_iff_exists.mp hsome
      rw [hfeedback]
      refine (handledStageError_runs hat₂ hstage₂).mono fun decision run₃ h₃ => ?_
      exact ⟨h₃.1, hkept₂.trans h₃.2⟩

/-! ### Transitions -/

variable {decision : StageDecision S}

theorem selectRoute_runs (hat : At d initialState (.deciding decision) run) :
    Runs d initialState (selectRoute d decision) run fun selected run' =>
      At d initialState (.chosen decision) run' ∧ Kept run run' ∧
        d.routeFor decision.source decision.outcome selected.branchKey
          = some ⟨selected.target, selected.guards⟩ := by
  unfold selectRoute
  refine (Runs.modifyRuntime_kept hat Move.select rfl rfl).bind fun _ run₁ h₁ => ?_
  cases hroute : d.routes.lookup (decision.source, decision.outcome) with
  | none => exact Runs.throw h₁.1.reached (by simp)
  | some route =>
    cases route with
    | direct route =>
      refine Runs.pure ⟨h₁.1, h₁.2, ?_⟩
      simp only [CompiledGraph.routeFor, hroute]
    | branch router routes =>
      show Runs d initialState (selectBranch d decision router routes) run₁ _
      unfold selectBranch
      refine (Runs.of_observes (observes_inspectionResult _ _) h₁.1).bind fun seen run₂ h₂ => ?_
      refine (Runs.of_observes (observes_call _ _) h₂.2.1).bind fun reply run₃ h₃ => ?_
      have hkept₃ : Kept run run₃ := h₁.2.trans (h₂.1.trans h₃.1).kept
      cases reply with
      | error typeName => exact Runs.throw h₃.2.1.reached (by simp)
      | ok rawKey =>
        dsimp only
        cases hkey : routes.lookup ((rawKey.map strip).getD "") with
        | none => exact Runs.throw h₃.2.1.reached (by simp)
        | some destination =>
          refine Runs.pure ⟨h₃.2.1, hkept₃, ?_⟩
          simp only [CompiledGraph.routeFor, hroute, hkey]

variable {selected : SelectedRoute S W}

theorem consumeTransition_runs (hat : At d initialState (.chosen decision) run)
    (hroute : d.routeFor decision.source decision.outcome selected.branchKey
      = some ⟨selected.target, selected.guards⟩) :
    Runs d initialState consumeTransition run fun sequence run' =>
      At d initialState (.counted decision selected) run' ∧
        sequence = run'.runtime.transitionCount ∧
        run'.runtime.transitionCount = run.runtime.transitionCount + 1 := by
  unfold consumeTransition
  refine (Runs.of_observes observes_runtime hat).bind fun rt run₁ h₁ => ?_
  obtain ⟨hobs, hat₁, rfl⟩ := h₁
  refine Runs.bind (Q := fun _ run' => At d initialState (.counted decision selected) run' ∧
    run'.runtime.transitionCount = run.runtime.transitionCount + 1) ?_ fun _ run₂ h₂ => ?_
  · refine (Runs.modifyRuntime hat₁ (Move.consume hroute)).mono fun _ run₂ h₂ => ⟨h₂.1, ?_⟩
    rw [h₂.2, hobs.1]
  · exact Runs.pure ⟨h₂.1, h₂.2.symm, h₂.2⟩

variable {sequence : Nat}

theorem runGuards_runs (hat : At d initialState (.counted decision selected) run)
    (hsequence : sequence = run.runtime.transitionCount)
    (hlimit : sequence ≤ d.settings.maxTransitions) :
    Runs d initialState (runGuards d env decision selected sequence) run fun validation run' =>
      At d initialState (.guarding decision selected) run' ∧ Kept run run' ∧
        GatesHold d selected.guards decision.stageResult.state validation := by
  unfold runGuards
  subst hsequence
  refine (Runs.modifyRuntime_kept hat (Move.guard hlimit) rfl rfl).bind fun _ run₁ h₁ => ?_
  refine (Runs.of_observes (observes_inspectionResult _ _) h₁.1).bind fun inspection run₂ h₂ => ?_
  refine (Runs.of_observes observes_runtime h₂.2.1).bind fun rt run₃ h₃ => ?_
  refine (Runs.of_observes (observes_normalizeClone _ _) h₃.2.1).bind fun before run₄ h₄ => ?_
  refine (Runs.of_observes (observes_evaluate _ _ _) h₄.2.1).mono fun validation run₅ h₅ => ?_
  refine ⟨h₅.2.1, h₁.2.trans (((h₂.1.trans h₃.1).trans h₄.1).trans h₅.1).kept, ?_⟩
  intro hpassed hlawful
  obtain ⟨records, hrecords, hall⟩ := h₅.2.2 hpassed
  rw [List.nil_append] at hrecords
  rw [hrecords]
  simpa only [h₂.2.2 hlawful] using hall

theorem emit_committed_runs {stage : Option String}
    (hat : At d initialState (.settling decision selected validation) run) :
    Runs d initialState (emit env .stateCommitted stage) run fun _ run' =>
      At d initialState (.settled decision selected validation) run' ∧ Kept run run' := by
  have hsettled : ∀ run' : WorkflowRun S W, (run'.runtime = run.runtime ∧
      run'.committedEvents = run.committedEvents + 1) →
      At d initialState (.settled decision selected validation) run' ∧ Kept run run' := by
    intro run' h
    have hmove : Move d ⟨.settling decision selected validation, run.runtime, run.committedEvents⟩
        ⟨.settled decision selected validation, run'.runtime, run'.committedEvents⟩ := by
      rw [h.1, h.2]
      exact Move.announce
    refine ⟨hat.move hmove, ?_⟩
    unfold Kept
    rw [h.1]
    exact ⟨rfl, rfl⟩
  apply wp_mono (emit_spec .stateCommitted stage)
  · exact fun run' h => (hsettled run' h).1.reached
  · exact fun _ run' h => hsettled run' h
  · exact fun _ run' h => ⟨(hsettled run' h.1).1.reached, h.2⟩

theorem settle_runs (hat : At d initialState (.guarding decision selected) run)
    (hsequence : sequence = run.runtime.transitionCount) (hpassed : validation.passed = true)
    (hguards : GatesHold d selected.guards decision.stageResult.state validation) :
    Runs d initialState (settle d env decision selected sequence validation) run fun _ run' =>
      At d initialState (.settled decision selected validation) run' ∧ Kept run run' := by
  unfold settle
  split
  · next hcommit =>
    refine (Runs.of_observes (observes_normalizeClone _ _) hat).bind fun state run₁ h₁ => ?_
    obtain ⟨hobs, hat₁, hstate⟩ := h₁
    have hsequence₁ : sequence = run₁.runtime.transitionCount := hsequence.trans hobs.kept.2.symm
    subst hsequence₁
    refine Runs.bind (Runs.modifyRuntime_kept hat₁ (Move.commit hcommit hpassed hguards hstate) rfl rfl)
      fun _ run₂ h₂ => ?_
    refine (emit_committed_runs h₂.1).bind fun _ run₃ h₃ => ?_
    refine (Runs.modifyRuntime_kept h₃.1 Move.clear rfl rfl).mono fun _ run₄ h₄ => ⟨h₄.1, ?_⟩
    exact ((hobs.kept.trans h₂.2).trans h₃.2).trans h₄.2
  · next hcommit =>
    exact Runs.modifyRuntime_kept hat (Move.carry (by simpa using hcommit)) rfl rfl

theorem enterTarget_runs (hat : At d initialState (.settled decision selected validation) run) :
    Runs d initialState (enterTarget d selected.target) run fun terminal run' =>
      At d initialState (.arrived decision selected validation terminal) run' ∧
        run'.runtime.transitionCount = run.runtime.transitionCount := by
  unfold enterTarget
  split
  · next hterminal => exact Runs.pure ⟨hat.move (Move.arrive hterminal), rfl⟩
  · next hstage =>
    have htarget : d.terminals.lookup selected.target = none := Option.not_isSome_iff_eq_none.mp hstage
    refine Runs.bind (Runs.modifyRuntime hat (Move.enter htarget)) fun _ run₁ h₁ => ?_
    refine Runs.pure ⟨h₁.1, ?_⟩
    rw [h₁.2]

def afterTransition : Option String → Phase S W
  | none => .idle
  | some terminal => .finished terminal

theorem appendAccepted_runs {terminal : Option String}
    (hat : At d initialState (.arrived decision selected validation terminal) run)
    (hsequence : sequence = run.runtime.transitionCount) :
    Runs d initialState (appendTransitionRecord sequence decision selected validation true) run
      fun _ run' => At d initialState (afterTransition terminal) run' ∧ Kept run run' := by
  subst hsequence
  cases terminal with
  | none => exact Runs.modifyRuntime_kept hat Move.next rfl rfl
  | some terminal => exact Runs.modifyRuntime_kept hat Move.finish rfl rfl

theorem appendRefused_runs (hat : At d initialState (.guarding decision selected) run)
    (hsequence : sequence = run.runtime.transitionCount) :
    Runs d initialState (appendTransitionRecord sequence decision selected validation false) run
      fun _ run' => At d initialState (.redirecting decision) run' ∧ Kept run run' := by
  subst hsequence
  exact Runs.modifyRuntime_kept hat Move.refuse rfl rfl

theorem redirectGuardRejection_runs (hat : At d initialState (.redirecting decision) run) :
    Runs d initialState (redirectGuardRejection d env decision validation) run fun redirected run' =>
      At d initialState (.deciding redirected) run' ∧ Kept run run' := by
  unfold redirectGuardRejection
  refine (Runs.of_observes (observes_emit (by simp) _) hat).bind fun _ run₁ h₁ => ?_
  refine (Runs.of_observes observes_runtime h₁.2.1).bind fun rt run₂ h₂ => ?_
  exact Runs.pure ⟨h₂.2.1.move (Move.redirect rfl rfl rfl rfl), (h₁.1.trans h₂.1).kept⟩

theorem tryTransition_runs (hat : At d initialState (.counted decision selected) run)
    (hsequence : sequence = run.runtime.transitionCount)
    (hlimit : sequence ≤ d.settings.maxTransitions) :
    Runs d initialState (tryTransition d env decision selected sequence) run fun outcome run' =>
      run'.runtime.transitionCount = run.runtime.transitionCount ∧
        match outcome with
        | .inl terminal => At d initialState (afterTransition terminal) run'
        | .inr redirected => At d initialState (.deciding redirected) run' := by
  unfold tryTransition
  refine (runGuards_runs hat hsequence hlimit).bind fun guards run₁ h₁ => ?_
  obtain ⟨hat₁, hkept₁, hguards⟩ := h₁
  have hsequence₁ : sequence = run₁.runtime.transitionCount := hsequence.trans hkept₁.2.symm
  split
  · refine (appendRefused_runs hat₁ hsequence₁).bind fun _ run₂ h₂ => ?_
    exact Runs.throw h₂.1.reached (by simp)
  split
  · next hpassed =>
    unfold acceptTransition
    refine Runs.bind (Q := fun terminal run' =>
      At d initialState (.arrived decision selected guards terminal) run' ∧
        run'.runtime.transitionCount = run₁.runtime.transitionCount) ?_ fun terminal run₃ h₃ => ?_
    · refine (settle_runs hat₁ hsequence₁ hpassed hguards).bind fun _ run₂ h₂ => ?_
      refine (enterTarget_runs h₂.1).mono fun terminal run₃ h₃ => ?_
      exact ⟨h₃.1, h₃.2.trans h₂.2.2⟩
    · refine (appendAccepted_runs h₃.1 (hsequence₁.trans h₃.2.symm)).bind fun _ run₄ h₄ => ?_
      exact Runs.pure ⟨((h₄.2.2.trans h₃.2).trans hkept₁.2), h₄.1⟩
  · refine (appendRefused_runs hat₁ hsequence₁).bind fun _ run₂ h₂ => ?_
    unfold Runs
    rw [wp_map]
    refine (redirectGuardRejection_runs h₂.1).mono fun redirected run₃ h₃ => ?_
    exact ⟨(h₃.2.2.trans h₂.2.2).trans hkept₁.2, h₃.1⟩

/-! ### The loops -/

/-- Every state of the run is one of moves, and it needs no more fuel where `enough` holds. -/
def RunsWithin (d : CompiledGraph S W) (initialState : S) (enough : Prop) (m : WorkflowM S W α)
    (run : WorkflowRun S W) (Q : α → WorkflowRun S W → Prop) : Prop :=
  wp (Reached d initialState) m Q
    (fun e run' => Reached d initialState run' ∧ (enough → e ≠ .outOfFuel)) run

namespace RunsWithin

variable {enough : Prop} {m : WorkflowM S W α} {Q : α → WorkflowRun S W → Prop}

theorem of_runs (h : Runs d initialState m run Q) : RunsWithin d initialState enough m run Q :=
  wp_post h (fun _ _ hh => hh) fun _ _ hh => ⟨hh.1, fun _ => hh.2⟩

theorem bind {f : α → WorkflowM S W β} {R : β → WorkflowRun S W → Prop}
    (h : RunsWithin d initialState enough m run Q)
    (hf : ∀ a run', Q a run' → RunsWithin d initialState enough (f a) run' R) :
    RunsWithin d initialState enough (m >>= f) run R :=
  (wp_bind m f).mpr (wp_post h hf fun _ _ hh => hh)

theorem mono {enough' : Prop} {Q' : α → WorkflowRun S W → Prop}
    (h : RunsWithin d initialState enough m run Q) (henough : enough' → enough)
    (hQ : ∀ a run', Q a run' → Q' a run') : RunsWithin d initialState enough' m run Q' :=
  wp_post h hQ fun _ _ hh => ⟨hh.1, fun he => hh.2 (henough he)⟩

end RunsWithin

theorem raiseTransitionLimit_runs {Q : α → WorkflowRun S W → Prop}
    (hat : At d initialState (.counted decision selected) run)
    (hsequence : sequence = run.runtime.transitionCount)
    (hlimit : d.settings.maxTransitions < sequence) :
    Runs d initialState (raiseTransitionLimit d sequence decision selected) run Q := by
  subst hsequence
  unfold raiseTransitionLimit appendTransitionRecord
  refine Runs.bind (Runs.modifyRuntime hat (Move.limit hlimit)) fun _ run₁ h₁ => ?_
  exact Runs.throw h₁.1.reached (by simp)

/-- Every selection counts a transition, so the transitions that are left are enough fuel. -/
theorem advance_runs (fuel : Nat)
    (hat : At d initialState (.deciding decision) run)
    (hcount : run.runtime.transitionCount ≤ d.settings.maxTransitions) :
    RunsWithin d initialState (d.settings.maxTransitions < fuel + run.runtime.transitionCount)
      (advance d env fuel decision) run fun terminal run' =>
        At d initialState (afterTransition terminal) run' ∧
          run.runtime.transitionCount < run'.runtime.transitionCount ∧
          run'.runtime.transitionCount ≤ d.settings.maxTransitions := by
  induction fuel generalizing decision run with
  | zero =>
    refine (wp_throw _).mpr ⟨hat.reached, fun henough => ?_⟩
    omega
  | succ fuel ih =>
    unfold advance
    refine (RunsWithin.of_runs (selectRoute_runs hat)).bind fun selected run₁ h₁ => ?_
    refine (RunsWithin.of_runs (consumeTransition_runs h₁.1 h₁.2.2)).bind fun sequence run₂ h₂ => ?_
    refine (RunsWithin.of_runs (Runs.of_observes (observes_emit (by simp) _) h₂.1)).bind
      fun _ run₃ h₃ => ?_
    have hcount₃ : run₃.runtime.transitionCount = run.runtime.transitionCount + 1 := by
      rw [h₃.1.kept.2, h₂.2.2, h₁.2.1.2]
    have hsequence₃ : sequence = run₃.runtime.transitionCount := h₂.2.1.trans h₃.1.kept.2.symm
    split
    · next hlimit => exact RunsWithin.of_runs (raiseTransitionLimit_runs h₃.2.1 hsequence₃ hlimit)
    · next hlimit =>
      have hle : sequence ≤ d.settings.maxTransitions := by omega
      refine (RunsWithin.of_runs (tryTransition_runs h₃.2.1 hsequence₃ hle)).bind
        fun outcome run₄ h₄ => ?_
      cases outcome with
      | inl terminal => exact (wp_pure _).mpr ⟨h₄.2, by omega, by omega⟩
      | inr redirected =>
        refine (ih h₄.2 (by omega)).mono (by omega) fun terminal run₅ h₅ => ?_
        exact ⟨h₅.1, by omega, h₅.2.2⟩

def IsResultOf (d : CompiledGraph S W) (run : WorkflowRun S W) (result : StateMachineResult S) : Prop :=
  d.terminals.lookup result.terminal = some result.status ∧
    result.state = run.runtime.committedState ∧ result.stages = run.runtime.stages ∧
    result.transitions = run.runtime.transitions ∧
    result.events.countP (·.eventType = .stateCommitted) = run.committedEvents

theorem finish_runs {terminal : String} (hat : At d initialState (.finished terminal) run) :
    Runs d initialState (finish d env terminal) run fun result run' =>
      At d initialState (.finished result.terminal) run' ∧ IsResultOf d run' result := by
  unfold finish
  cases hstatus : d.terminals.lookup terminal with
  | none => exact Runs.throw hat.reached (by simp)
  | some status =>
    refine (Runs.of_observes (observes_emit (by simp) _) hat).bind fun _ run₁ h₁ => ?_
    unfold Runs
    rw [wp_bind, wp_get, wp_pure]
    exact ⟨h₁.2.1, hstatus, rfl, rfl, rfl, rfl⟩

theorem executeStages_runs (fuel : Nat) (hat : At d initialState .idle run)
    (hcount : run.runtime.transitionCount ≤ d.settings.maxTransitions) :
    RunsWithin d initialState (d.settings.maxTransitions < fuel + run.runtime.transitionCount)
      (executeStages d env fuel) run fun result run' =>
        At d initialState (.finished result.terminal) run' ∧ IsResultOf d run' result := by
  induction fuel generalizing run with
  | zero =>
    refine (wp_throw _).mpr ⟨hat.reached, fun henough => ?_⟩
    omega
  | succ fuel ih =>
    unfold executeStages
    refine (RunsWithin.of_runs (Runs.of_observes observes_runtime hat)).bind fun rt run₁ h₁ => ?_
    obtain ⟨hobs, hat₁, rfl⟩ := h₁
    refine (RunsWithin.of_runs (runStage_runs hat₁ hobs.kept.1)).bind fun decision run₂ h₂ => ?_
    have hcount₂ : run₂.runtime.transitionCount = run.runtime.transitionCount :=
      h₂.2.2.trans hobs.kept.2
    refine ((advance_runs (fuel + 1) h₂.1 (by omega)).mono (by omega) fun _ _ hh => hh).bind
      fun terminal run₃ h₃ => ?_
    cases terminal with
    | some terminal => exact RunsWithin.of_runs (finish_runs h₃.1)
    | none => exact (ih h₃.1 h₃.2.2).mono (by omega) fun _ _ hh => hh

theorem at_start (world : W) :
    At d initialState .idle (WorkflowRun.start d initialState world) :=
  ⟨_, ⟨initialState, fun _ => rfl, rfl⟩, Relation.ReflTransGen.refl⟩

theorem observes_emitFailure :
    Observes (emitFailure env : WorkflowM S W Unit) run fun _ => True := by
  unfold emitFailure
  refine observes_runtime.bind fun rt run' _ _ => ?_
  unfold Observes
  rw [wp_tryCatch]
  refine wp_post (observes_emit (by simp) _) (fun _ _ h => h) fun e run'' h => ?_
  exact (wp_pure _).mpr ⟨h.1, trivial⟩

theorem execute_runs (d : CompiledGraph S W) (env : Surroundings W) (fuel : Nat) (initialState : S)
    (world : W) :
    RunsWithin d initialState (d.settings.maxTransitions < fuel)
      (execute d env fuel initialState) (WorkflowRun.start d initialState world) fun result run' =>
        At d initialState (.finished result.terminal) run' ∧ IsResultOf d run' result := by
  unfold execute RunsWithin
  rw [wp_tryCatch]
  refine wp_post (?_ : RunsWithin d initialState (d.settings.maxTransitions < fuel) _ _ _)
    (fun _ _ h => h) fun e run' h => ?_
  · refine (RunsWithin.of_runs (Runs.of_observes (observes_emit (by simp) _) (at_start world))).bind
      fun _ run₁ h₁ => ?_
    refine (RunsWithin.of_runs (Runs.of_observes (observes_normalizeClone _ _) h₁.2.1)).bind
      fun committed run₂ h₂ => ?_
    have hobs := h₁.1.trans h₂.1
    have hruntime : run₂.runtime = { committedState := initialState, currentStage := d.entry } := hobs.1
    have hevents : run₂.committedEvents = 0 := hobs.2
    have hat₃ : At d initialState .idle
        { run₂ with runtime := { run₂.runtime with committedState := committed } } := by
      refine ⟨_, ⟨committed, h₂.2.2, rfl⟩, ?_⟩
      rw [hruntime]
      show Relation.ReflTransGen (Move d) _ ⟨.idle, _, run₂.committedEvents⟩
      rw [hevents]
    unfold RunsWithin modifyRuntime
    rw [wp_bind, wp_modify]
    refine ⟨hat₃.reached, (executeStages_runs fuel hat₃ ?_).mono (by omega) fun _ _ hh => hh⟩
    rw [hruntime]
    exact Nat.zero_le _
  · rw [wp_bind]
    obtain ⟨⟨phase, hat⟩, hfuel⟩ := h
    have hemit : Observes (emitFailure env) run' fun _ => True := observes_emitFailure
    refine wp_mono (Runs.of_observes hemit hat) (fun _ ht => ht)
      (fun _ run'' h'' => (wp_throw e).mpr ⟨h''.2.1.reached, hfuel⟩) fun _ _ h'' => ?_
    exact ⟨h''.1, fun _ => h''.2⟩

end WorkflowM

/-! ### What holds of a whole run -/

section

variable (d : CompiledGraph S W) (env : Surroundings W) (fuel : Nat) (initialState : S) (world : W)

/-- The run of `execute` from the start. -/
def runOf : Outcome (WorkflowRun S W) WorkflowFailure (StateMachineResult S) :=
  WorkflowM.execute d env fuel initialState (WorkflowRun.start d initialState world)

/-- The configurations of a run: those it passes through, and the one it ends in. -/
def configurations : List (WorkflowRun S W) :=
  (runOf d env fuel initialState world).visited ++ [(runOf d env fuel initialState world).final]

variable {d env fuel initialState world}

theorem reached_of_mem_configurations {run : WorkflowRun S W}
    (h : run ∈ configurations d env fuel initialState world) : Reached d initialState run := by
  have hruns := WorkflowM.execute_runs d env fuel initialState world
  rcases List.mem_append.mp h with hvisited | hfinal
  · exact hruns.1 run hvisited
  · rw [List.mem_singleton.mp hfinal]
    have hend := hruns.2
    unfold runOf
    split at hend
    · exact hend.1.reached
    · exact hend.1

theorem result_of_run {result : StateMachineResult S}
    (h : (runOf d env fuel initialState world).result = .ok result) :
    At d initialState (.finished result.terminal) (runOf d env fuel initialState world).final ∧
      WorkflowM.IsResultOf d (runOf d env fuel initialState world).final result := by
  have hend := (WorkflowM.execute_runs d env fuel initialState world).2
  unfold runOf at h
  rw [h] at hend
  exact hend

theorem run_ne_outOfFuel (hfuel : d.settings.maxTransitions < fuel) :
    (runOf d env fuel initialState world).result ≠ .error .outOfFuel := by
  intro h
  have hend := (WorkflowM.execute_runs d env fuel initialState world).2
  unfold runOf at h
  rw [h] at hend
  exact hend.2 hfuel rfl

end

end VidbyteSdk.Workflows
