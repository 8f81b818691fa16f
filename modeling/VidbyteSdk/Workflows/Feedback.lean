import Mathlib.Data.List.DropRight
import VidbyteSdk.Workflows.Evidence

/-!
# The feedback a stage sees

A stage callback gets the feedback of the run state. The machine sets it where a transition is settled,
extends it in a decision where a guard refuses, and clears it where a state is committed. `rejections`
reads the same off the records of the run: what the transitions since the last stage work came from.
`Informed` says that the two agree whenever a stage may be called, and `Deciding` what a decision carries
until it is settled.
-/

namespace VidbyteSdk.Workflows

open VidbyteSdk.Lib Prog

variable {S W : Type}

/-! ### The rejections on record -/

def blocking (settings : StateMachineSettings) (records : List (ValidationRecord S)) :
    Option ValidationResult := do
  let record ← records.getLast?
  let decision ← interpret settings record.result records
  decision.result

def stageError (stage outcome : String) : WorkflowFeedback :=
  ⟨"stage_error", stage, outcome, s!"Stage '{stage}' exhausted its execution policy."⟩

def validationsOf (stages : List (StageExecution S)) (index : Option Nat) :
    List (ValidationRecord S) :=
  (index.bind fun index => (stages[index]?).map (·.validations)).getD []

/-- The stage rejection or handled stage error that a transition recovers from; none if its stage made a
candidate that its validators passed. -/
def origin (settings : StateMachineSettings) (stages : List (StageExecution S))
    (t : TransitionRecord S) : List WorkflowFeedback :=
  if t.trigger = "stage_error" then [stageError t.source t.outcome]
  else if t.trigger = "stage_validation" then
    (blocking settings (validationsOf stages t.stageRecord)).toList.map
      (WorkflowM.validationFeedback "stage_validation" t.source)
  else []

def guardRejection (settings : StateMachineSettings) (t : TransitionRecord S) :
    List WorkflowFeedback :=
  (blocking settings t.validations).toList.map
    (WorkflowM.validationFeedback "transition_guard" t.source)

/-- The rejections on the way of some transitions: where the first comes from, then one for each but the
last, which is not refused. -/
def rejections (settings : StateMachineSettings) (stages : List (StageExecution S))
    (trail : List (TransitionRecord S)) : List WorkflowFeedback :=
  trail.head?.toList.flatMap (origin settings stages) ++ trail.dropLast.flatMap (guardRejection settings)

/-- The transitions since the last stage work: the refused ones, and the accepted one that ends them. -/
def sinceStageWork (transitions : List (TransitionRecord S)) : List (TransitionRecord S) :=
  transitions.dropLast.rtakeWhile (fun t => !t.accepted) ++ transitions.getLast?.toList

def recoveryTriggers : List String := ["stage_validation", "transition_guard", "stage_error"]

/-- A stage callback was called and its attempt is not recorded so far. -/
def RunState.Calling (rt : RunState S) : Prop := rt.stages.length < rt.invocations

variable {settings : StateMachineSettings} {stages : List (StageExecution S)} {t : TransitionRecord S}

theorem origin_of_stage_outcome (h : t.trigger = "stage_outcome") : origin settings stages t = [] := by
  unfold origin
  rw [h, if_neg (by decide), if_neg (by decide)]

theorem origin_of_stage_validation (h : t.trigger = "stage_validation") :
    origin settings stages t = (blocking settings (validationsOf stages t.stageRecord)).toList.map
      (WorkflowM.validationFeedback "stage_validation" t.source) := by
  unfold origin
  rw [h, if_neg (by decide), if_pos rfl]

theorem rejections_singleton (settings : StateMachineSettings) (stages : List (StageExecution S))
    (t : TransitionRecord S) : rejections settings stages [t] = origin settings stages t := by
  simp [rejections]

theorem rejections_concat (settings : StateMachineSettings) (stages : List (StageExecution S))
    (trail : List (TransitionRecord S)) (t t' : TransitionRecord S) :
    rejections settings stages (trail ++ [t] ++ [t'])
      = rejections settings stages (trail ++ [t]) ++ guardRejection settings t := by
  unfold rejections
  have hhead : (trail ++ [t] ++ [t']).head? = (trail ++ [t]).head? := by
    cases trail <;> rfl
  rw [hhead, List.dropLast_concat, List.dropLast_concat, List.flatMap_append]
  simp

/-- Later records, and changes that leave the validations alone, do not matter to the rejections. -/
theorem rejections_congr {stages stages' : List (StageExecution S)}
    {trail : List (TransitionRecord S)}
    (h : ∀ t ∈ trail, ∀ index, t.stageRecord = some index →
      (stages'[index]?).map (·.validations) = (stages[index]?).map (·.validations)) :
    rejections settings stages' trail = rejections settings stages trail := by
  cases trail with
  | nil => rfl
  | cons t trail =>
    have hvalidations : validationsOf stages' t.stageRecord = validationsOf stages t.stageRecord := by
      unfold validationsOf
      cases hindex : t.stageRecord with
      | none => rfl
      | some index => rw [Option.bind_some, Option.bind_some, h t (by simp) index hindex]
    unfold rejections origin
    simp only [List.head?_cons, Option.toList_some, List.flatMap_cons, List.flatMap_nil, hvalidations]

theorem sinceStageWork_concat {led refused : List (TransitionRecord S)} (t : TransitionRecord S)
    (hled : ∀ last, led.getLast? = some last → last.accepted = true)
    (hrefused : ∀ t ∈ refused, t.accepted = false) :
    sinceStageWork (led ++ refused ++ [t]) = refused ++ [t] := by
  unfold sinceStageWork
  rw [List.dropLast_concat, List.getLast?_concat, Option.toList_some]
  congr 1
  unfold List.rtakeWhile
  rw [List.reverse_append, List.takeWhile_append_of_pos]
  · have hnone : led.reverse.takeWhile (fun t => !t.accepted) = [] := by
      rcases List.eq_nil_or_concat' led with rfl | ⟨before, last, rfl⟩
      · rfl
      · rw [List.reverse_concat, List.takeWhile_cons_of_neg]
        simp [hled last List.getLast?_concat]
    rw [hnone, List.append_nil, List.reverse_reverse]
  · intro t ht
    simp [hrefused t (List.mem_reverse.mp ht)]

/-! ### The invariant -/

/-- The feedback is the rejections since the last stage work. `visits` stage visits have no accepted
transition so far, `calls` callbacks no record. -/
structure Informed (d : CompiledGraph S W) (visits calls : Nat) (rt : RunState S) : Prop where
  feedback_eq : rt.feedback = rejections d.settings rt.stages (sinceStageWork rt.transitions)
  ends : ∀ last, rt.transitions.getLast? = some last → last.accepted = true ∧
    (last.trigger = "stage_outcome" ∧ rt.feedback = [] ∨
      last.trigger ∈ recoveryTriggers ∧ rt.feedback ≠ [])
  recorded : ∀ t ∈ rt.transitions, ∀ index, t.stageRecord = some index → index < rt.stages.length
  commits_eq : rt.commits.map (·.sequence) = (rt.transitions.filter (·.commits)).map (·.sequence)
  visits_eq : rt.stageVisits.length = rt.transitions.countP (·.accepted) + visits
  invocations_eq : rt.invocations = rt.stages.length + calls

/-- Whenever a stage is being called, the run state holds the rejections since the last stage work. -/
def Sees (d : CompiledGraph S W) (run : WorkflowRun S W) : Prop :=
  run.runtime.Calling → Informed d 1 1 run.runtime

def StageDecision.carried (decision : StageDecision S) : List WorkflowFeedback :=
  if decision.canCommit then [] else decision.feedback

structure IsRecordOf (decision : StageDecision S) (t : TransitionRecord S) : Prop where
  source_eq : t.source = decision.source
  outcome_eq : t.outcome = decision.outcome
  trigger_eq : t.trigger = decision.trigger
  stageRecord_eq : t.stageRecord = decision.stageRecordIndex

/-- A decision that is not settled: what it carries is the rejections since the last stage work. -/
structure Deciding (d : CompiledGraph S W) (decision : StageDecision S) (rt : RunState S) : Prop where
  trail : ∃ led refused, rt.transitions = led ++ refused ∧
    (∀ last, led.getLast? = some last → last.accepted = true) ∧
    (∀ t ∈ refused, t.accepted = false) ∧
    ∀ t, IsRecordOf decision t → decision.carried = rejections d.settings rt.stages (refused ++ [t])
  cause : decision.canCommit = true ∧ decision.trigger = "stage_outcome" ∨
    decision.canCommit = false ∧ decision.trigger ∈ recoveryTriggers ∧ decision.feedback ≠ []
  recorded : ∀ t ∈ rt.transitions, ∀ index, t.stageRecord = some index → index < rt.stages.length
  index_lt : ∀ index, decision.stageRecordIndex = some index → index < rt.stages.length
  commits_eq : rt.commits.map (·.sequence) = (rt.transitions.filter (·.commits)).map (·.sequence)
  visits_eq : rt.stageVisits.length = rt.transitions.countP (·.accepted) + 1
  invocations_eq : rt.invocations = rt.stages.length

theorem Sees.of_invocations_eq {d : CompiledGraph S W} {run : WorkflowRun S W}
    (h : run.runtime.invocations = run.runtime.stages.length) : Sees d run := by
  intro hcalling
  unfold RunState.Calling at hcalling
  omega

theorem mem_of_mem_sinceStageWork {transitions : List (TransitionRecord S)}
    (h : t ∈ sinceStageWork transitions) : t ∈ transitions := by
  rcases List.mem_append.mp h with hrefused | hlast
  · exact List.dropLast_subset _ ((List.rtakeWhile_suffix _ _).mem hrefused)
  · exact List.mem_of_getLast? (Option.mem_toList.mp hlast)

namespace Informed

variable {d : CompiledGraph S W} {visits calls : Nat} {rt : RunState S}

theorem sees {run : WorkflowRun S W} (h : Informed d visits calls run.runtime) (hcalls : calls = 0) :
    Sees d run :=
  Sees.of_invocations_eq (by rw [h.invocations_eq, hcalls, Nat.add_zero])

theorem feedback_eq_of_records (h : Informed d visits calls rt)
    (hkept : ∀ t ∈ rt.transitions, ∀ index, t.stageRecord = some index →
      (stages[index]?).map (·.validations) = (rt.stages[index]?).map (·.validations)) :
    rt.feedback = rejections d.settings stages (sinceStageWork rt.transitions) := by
  rw [rejections_congr fun t ht => hkept t (mem_of_mem_sinceStageWork ht)]
  exact h.feedback_eq

theorem append_stage (h : Informed d visits 1 rt) (record : StageExecution S) :
    Informed d visits 0 { rt with stages := rt.stages ++ [record] } where
  feedback_eq := h.feedback_eq_of_records fun t ht index hindex => by
    rw [List.getElem?_append_left (h.recorded t ht index hindex)]
  ends := h.ends
  recorded := fun t ht index hindex => by
    have hlt := h.recorded t ht index hindex
    rw [List.length_append]
    omega
  commits_eq := h.commits_eq
  visits_eq := h.visits_eq
  invocations_eq := by
    rw [List.length_append, List.length_singleton]
    exact h.invocations_eq

theorem attach (h : Informed d visits calls rt) {index : Nat} (huntried : Untried rt.transitions index)
    (validations : List (ValidationRecord S)) :
    Informed d visits calls { rt with
      stages := rt.stages.modify index fun record => { record with validations := validations } } where
  feedback_eq := h.feedback_eq_of_records fun t ht index' hindex => by
    have hne : index ≠ index' := fun heq => huntried t ht (heq ▸ hindex)
    show ((rt.stages.modify index _)[index']?).map _ = _
    simp only [List.getElem?_modify, if_neg hne, Option.map_eq_map, Option.map_id']
  ends := h.ends
  recorded := fun t ht index' hindex => by
    rw [List.length_modify]
    exact h.recorded t ht index' hindex
  commits_eq := h.commits_eq
  visits_eq := h.visits_eq
  invocations_eq := by
    rw [List.length_modify]
    exact h.invocations_eq

theorem deciding (h : Informed d 1 0 rt) {decision : StageDecision S}
    (hindex : ∀ index, decision.stageRecordIndex = some index → index < rt.stages.length)
    (horigin : ∀ t, IsRecordOf decision t → decision.carried = origin d.settings rt.stages t)
    (hcause : decision.canCommit = true ∧ decision.trigger = "stage_outcome" ∨
      decision.canCommit = false ∧ decision.trigger ∈ recoveryTriggers ∧ decision.feedback ≠ []) :
    Deciding d decision rt where
  trail := by
    refine ⟨rt.transitions, [], (List.append_nil _).symm, fun last hlast => (h.ends last hlast).1,
      by simp, fun t ht => ?_⟩
    rw [List.nil_append, rejections_singleton]
    exact horigin t ht
  cause := hcause
  recorded := h.recorded
  index_lt := hindex
  commits_eq := h.commits_eq
  visits_eq := h.visits_eq
  invocations_eq := h.invocations_eq

end Informed

structure Carried (decision : StageDecision S) (sequence : Nat) (rt rt' : RunState S) : Prop where
  feedback_eq : rt'.feedback = decision.carried
  transitions_eq : rt'.transitions = rt.transitions
  length_eq : rt'.stages.length = rt.stages.length
  validations_eq : ∀ index : Nat,
    (rt'.stages[index]?).map (·.validations) = (rt.stages[index]?).map (·.validations)
  commits_eq : rt'.commits.map (·.sequence)
    = rt.commits.map (·.sequence) ++ if decision.canCommit then [sequence] else []
  stageVisits_eq : rt'.stageVisits = rt.stageVisits
  invocations_eq : rt'.invocations = rt.invocations

theorem length_acceptStage (index : Option Nat) (stages : List (StageExecution S)) :
    (WorkflowM.acceptStage index stages).length = stages.length := by
  cases index with
  | none => rfl
  | some index => exact List.length_modify ..

theorem validations_acceptStage (index : Option Nat) (stages : List (StageExecution S)) (i : Nat) :
    ((WorkflowM.acceptStage index stages)[i]?).map (·.validations)
      = (stages[i]?).map (·.validations) := by
  cases index with
  | none => rfl
  | some index =>
    show ((stages.modify index _)[i]?).map _ = _
    rw [List.getElem?_modify]
    cases stages[i]? with
    | none => rfl
    | some record =>
      simp only [Option.map_some]
      split <;> rfl

namespace Deciding

variable {d : CompiledGraph S W} {decision : StageDecision S} {rt rt' : RunState S}
  {t : TransitionRecord S}

theorem sees {run : WorkflowRun S W} (h : Deciding d decision run.runtime) : Sees d run :=
  Sees.of_invocations_eq h.invocations_eq

theorem carried_of_not_canCommit (h : decision.canCommit = false) :
    decision.carried = decision.feedback := by
  unfold StageDecision.carried
  rw [h]
  rfl

theorem redirect (h : Deciding d decision rt) {redirected : StageDecision S}
    (ht : IsRecordOf decision t) (hrefused : t.accepted = false)
    (hfeedback : redirected.feedback = decision.carried ++ guardRejection d.settings t)
    (hguard : guardRejection d.settings t ≠ []) (hcommit : redirected.canCommit = false)
    (htrigger : redirected.trigger = "transition_guard")
    (hindex : redirected.stageRecordIndex = decision.stageRecordIndex) :
    Deciding d redirected { rt with transitions := rt.transitions ++ [t] } where
  trail := by
    obtain ⟨led, refused, hsplit, hled, hall, hcarried⟩ := h.trail
    refine ⟨led, refused ++ [t], ?_, hled, ?_, ?_⟩
    · show rt.transitions ++ [t] = led ++ (refused ++ [t])
      rw [hsplit, List.append_assoc]
    · intro t' ht'
      rcases List.mem_append.mp ht' with hold | hnew
      · exact hall t' hold
      · rw [List.mem_singleton.mp hnew]
        exact hrefused
    · intro t' _
      rw [rejections_concat, ← hcarried t ht, carried_of_not_canCommit hcommit]
      exact hfeedback
  cause := by
    refine Or.inr ⟨hcommit, ?_, ?_⟩
    · rw [htrigger]
      decide
    · rw [hfeedback]
      exact fun hnil => hguard (List.append_eq_nil_iff.mp hnil).2
  recorded := by
    intro t' ht' index hindex'
    rcases List.mem_append.mp ht' with hold | hnew
    · exact h.recorded t' hold index hindex'
    · rw [List.mem_singleton.mp hnew, ht.stageRecord_eq] at hindex'
      exact h.index_lt index hindex'
  index_lt := fun index hindex' => h.index_lt index (hindex ▸ hindex')
  commits_eq := by
    have hnone : t.commits = false := by
      unfold TransitionRecord.commits
      rw [hrefused, Bool.false_and]
    rw [List.filter_append, List.filter_cons_of_neg (by simp [hnone]), List.filter_nil,
      List.append_nil]
    exact h.commits_eq
  visits_eq := by
    rw [List.countP_append, List.countP_singleton, hrefused]
    exact h.visits_eq
  invocations_eq := h.invocations_eq

theorem accept (h : Deciding d decision rt) (hcarried : Carried decision t.sequence rt rt')
    (ht : IsRecordOf decision t) (haccepted : t.accepted = true) :
    Informed d 0 0 { rt' with transitions := rt'.transitions ++ [t] } := by
  obtain ⟨led, refused, hsplit, hled, hall, htrail⟩ := h.trail
  have hcommits : t.commits = decision.canCommit := by
    unfold TransitionRecord.commits
    rw [haccepted, ht.trigger_eq, Bool.true_and]
    rcases h.cause with ⟨hcan, htrigger⟩ | ⟨hcan, htrigger, -⟩
    · rw [hcan, htrigger]
      rfl
    · rw [hcan, decide_eq_false_iff_not]
      rintro heq
      rw [heq] at htrigger
      exact absurd htrigger (by decide)
  constructor
  · show rt'.feedback = rejections d.settings rt'.stages (sinceStageWork (rt'.transitions ++ [t]))
    rw [hcarried.transitions_eq, hsplit, sinceStageWork_concat t hled hall, hcarried.feedback_eq,
      rejections_congr fun _ _ index _ => hcarried.validations_eq index]
    exact htrail t ht
  · intro last hlast
    have hsame : t = last := by
      rw [List.getLast?_concat] at hlast
      exact Option.some.inj hlast
    subst hsame
    refine ⟨haccepted, ?_⟩
    rw [ht.trigger_eq]
    show _ ∧ rt'.feedback = [] ∨ _ ∧ rt'.feedback ≠ []
    rw [hcarried.feedback_eq]
    rcases h.cause with ⟨hcan, htrigger⟩ | ⟨hcan, htrigger, hne⟩
    · refine Or.inl ⟨htrigger, ?_⟩
      unfold StageDecision.carried
      rw [hcan]
      rfl
    · rw [carried_of_not_canCommit hcan]
      exact Or.inr ⟨htrigger, hne⟩
  · intro t' ht' index hindex
    show index < rt'.stages.length
    rw [hcarried.length_eq]
    rcases List.mem_append.mp ht' with hold | hnew
    · exact h.recorded t' (hcarried.transitions_eq ▸ hold) index hindex
    · rw [List.mem_singleton.mp hnew, ht.stageRecord_eq] at hindex
      exact h.index_lt index hindex
  · show rt'.commits.map _ = _
    rw [hcarried.commits_eq, hcarried.transitions_eq, List.filter_append, List.map_append, h.commits_eq,
      ← hcommits]
    cases hc : t.commits <;> simp [hc]
  · show rt'.stageVisits.length = (rt'.transitions ++ [t]).countP _ + 0
    rw [hcarried.stageVisits_eq, hcarried.transitions_eq, List.countP_append, List.countP_singleton,
      haccepted]
    exact h.visits_eq
  · show rt'.invocations = rt'.stages.length + 0
    rw [hcarried.invocations_eq, hcarried.length_eq]
    exact h.invocations_eq

end Deciding

namespace WorkflowM

variable {α β : Type} {d : CompiledGraph S W} {env : Surroundings W} {run : WorkflowRun S W}

/-! ### What the gates say -/

theorem blocking_of_interpret {record : ValidationRecord S}
    {records : List (ValidationRecord S)} {decision : ValidationDecision S}
    (h : interpret settings record.result (records ++ [record]) = some decision) :
    ∃ result, decision.result = some result ∧ blocking settings decision.records = some result := by
  have hresult : decision.records = records ++ [record] ∧ ∃ result, decision.result = some result := by
    unfold interpret at h
    split at h
    · cases h
    · cases h
      exact ⟨rfl, _, rfl⟩
    · split at h
      · cases h
      · cases h
        exact ⟨rfl, _, rfl⟩
      · cases h
        exact ⟨rfl, _, rfl⟩
  obtain ⟨hrecords, result, hresult⟩ := hresult
  refine ⟨result, hresult, ?_⟩
  unfold blocking
  rw [hrecords, List.getLast?_concat, Option.bind_eq_bind, Option.bind_some, h]
  exact hresult

theorem observes_evaluate_blocked (context : ValidationContext S) (validators : List (Validator S W))
    (records : List (ValidationRecord S)) :
    Observes (evaluate d env context validators records) run fun validation =>
      validation.passed = false → ∃ result, validation.result = some result ∧
        blocking d.settings validation.records = some result := by
  induction validators generalizing records run with
  | nil => exact Observes.pure fun h => by cases h
  | cons validator validators ih =>
    unfold evaluate
    refine (observes_evaluateOne validator context).bind fun record _ _ _ => ?_
    cases hinterpret : interpret d.settings record.result (records ++ [record]) with
    | some decision => exact Observes.pure fun _ => blocking_of_interpret hinterpret
    | none => exact ih (records ++ [record])

/-! ### Programs -/

/-- Wherever the program passes and however it ends, a stage that is called sees the rejections since the
last stage work. -/
def Informs (d : CompiledGraph S W) (m : WorkflowM S W α) (run : WorkflowRun S W)
    (Q : α → RunState S → Prop) : Prop :=
  wp (Sees d) m (fun a run' => Q a run'.runtime) (fun _ => Sees d) run

namespace Informs

variable {m : WorkflowM S W α} {Q Q' : α → RunState S → Prop}

theorem mono (h : Informs d m run Q) (hQ : ∀ a rt, Q a rt → Q' a rt) : Informs d m run Q' :=
  wp_post h (fun a run' => hQ a run'.runtime) fun _ _ hh => hh

theorem pure {a : α} (ha : Q a run.runtime) : Informs d (Pure.pure a) run Q :=
  (wp_pure a).mpr ha

theorem throw {e : WorkflowFailure} (h : Sees d run) :
    Informs d (Prog.throw e : WorkflowM S W α) run Q :=
  (wp_throw e).mpr h

theorem bind {f : α → WorkflowM S W β} {R : β → RunState S → Prop} (h : Informs d m run Q)
    (hf : ∀ a run', Q a run'.runtime → Informs d (f a) run' R) : Informs d (m >>= f) run R :=
  (wp_bind m f).mpr (wp_post h hf fun _ _ hh => hh)

theorem sees_of_runtime_eq {run' : WorkflowRun S W} (h : Sees d run)
    (hsame : run'.runtime = run.runtime) : Sees d run' := by
  unfold Sees
  rw [hsame]
  exact h

theorem of_observes {P : α → Prop} (h : Observes m run P) (hsees : Sees d run) :
    Informs d m run fun a rt => rt = run.runtime ∧ P a :=
  wp_mono h (fun _ ht => sees_of_runtime_eq hsees ht.1) (fun _ _ ht => ⟨ht.1.1, ht.2⟩)
    fun _ _ ht => sees_of_runtime_eq hsees ht.1.1

theorem runtime (hsees : Sees d run) :
    Informs d (WorkflowM.runtime : WorkflowM S W (RunState S)) run
      fun rt rt' => rt' = run.runtime ∧ rt = run.runtime :=
  of_observes observes_runtime hsees

theorem emit (eventType : WorkflowEventType) (stage : Option String) (hsees : Sees d run) :
    Informs d (emit env eventType stage) run fun _ rt => rt = run.runtime :=
  wp_mono (emit_spec eventType stage) (fun _ ht => sees_of_runtime_eq hsees ht.1)
    (fun _ _ ht => ht.1) fun _ _ ht => sees_of_runtime_eq hsees ht.1.1

theorem modifyRuntime {change : RunState S → RunState S}
    (h : Sees d { run with runtime := change run.runtime }) :
    Informs d (modifyRuntime change) run fun _ rt => rt = change run.runtime :=
  (wp_modify _).mpr ⟨h, rfl⟩

end Informs

/-! ### Stage work -/

/-- A candidate with its record, which no transition names, or a handled error. -/
def Attempted (rt : RunState S) (stage : String) (attempt : StageAttempt S) : Prop :=
  attempt.handledError = none ∧ (∃ index, attempt.recordIndex = some index ∧
      index < rt.stages.length ∧ Untried rt.transitions index) ∨
    attempt.handledError = some (stageError stage attempt.stageResult.outcome)

variable {stage : String} {definition : StageDefinition S W}

variable {visit attempt : Nat}

theorem informs_invokeStage {stageInput : S} (h : Informed d 1 0 run.runtime) :
    Informs d (invokeStage env definition stage visit attempt stageInput) run
      fun _ rt => Informed d 1 1 rt := by
  unfold invokeStage
  refine (Informs.runtime (h.sees rfl)).bind fun rt run₁ h₁ => ?_
  rw [← h₁.1] at h
  refine (Informs.emit _ _ (h.sees rfl)).bind fun _ run₂ h₂ => ?_
  rw [← h₂] at h
  have hcalled : Informed d 1 1 { run₂.runtime with invocations := run₂.runtime.invocations + 1 } :=
    ⟨h.feedback_eq, h.ends, h.recorded, h.commits_eq, h.visits_eq,
      congrArg Nat.succ h.invocations_eq⟩
  refine (Informs.modifyRuntime fun _ => hcalled).bind fun _ run₃ h₃ => ?_
  rw [← h₃] at hcalled
  refine (Informs.of_observes (observes_call _ _) fun _ => hcalled).mono fun _ rt hrt => ?_
  rw [hrt.1]
  exact hcalled

theorem informs_addStage {record : StageExecution S} (h : Informed d 1 1 run.runtime) :
    Informs d (addStage record) run fun index rt =>
      Informed d 1 0 rt ∧ index < rt.stages.length ∧ Untried rt.transitions index := by
  unfold addStage
  refine (Informs.runtime fun _ => h).bind fun rt run₁ h₁ => ?_
  obtain ⟨hsame, rfl⟩ := h₁
  have happended := (hsame ▸ h).append_stage record
  refine (Informs.modifyRuntime (happended.sees rfl)).bind fun _ run₂ h₂ => Informs.pure ?_
  rw [h₂, ← hsame]
  refine ⟨happended, ?_, fun t ht hindex => ?_⟩
  · show _ < (_ ++ [record]).length
    rw [List.length_append, List.length_singleton]
    omega
  · have hlt := (hsame ▸ h).recorded t ht _ hindex
    omega

theorem informs_recordStageFailure {stage typeName : String}
    (h : Informed d 1 1 run.runtime) :
    Informs d (recordStageFailure env stage visit attempt typeName) run
      fun _ rt => Informed d 1 0 rt := by
  unfold recordStageFailure
  refine (informs_addStage h).bind fun _ run₁ h₁ => ?_
  refine (Informs.emit _ _ (h₁.1.sees rfl)).mono fun _ rt hrt => ?_
  rw [hrt]
  exact h₁.1

theorem informs_recordCandidate {stateBefore : S}
    {result : StageResult S} (h : Informed d 1 1 run.runtime) :
    Informs d (recordCandidate d env stage visit attempt stateBefore result) run fun a rt =>
      Informed d 1 0 rt ∧ Attempted rt stage a := by
  unfold recordCandidate
  refine (Informs.of_observes (observes_snapshot _ _) fun _ => h).bind fun before run₁ h₁ => ?_
  rw [← h₁.1] at h
  refine (Informs.of_observes (observes_snapshot _ _) fun _ => h).bind fun candidate run₂ h₂ => ?_
  rw [← h₂.1] at h
  refine (informs_addStage h).bind fun index run₃ h₃ => ?_
  refine (Informs.emit _ _ (h₃.1.sees rfl)).bind fun _ run₄ h₄ => Informs.pure ?_
  rw [h₄]
  exact ⟨h₃.1, Or.inl ⟨rfl, index, rfl, h₃.2⟩⟩

theorem informs_finishAttempt {stateBefore : S}
    {value : Option (StageResult S)} (h : Informed d 1 1 run.runtime) :
    Informs d (finishAttempt d env stage visit attempt stateBefore value) run fun a rt =>
      Informed d 1 0 rt ∧ Attempted rt stage a := by
  unfold finishAttempt
  refine (Informs.of_observes (observes_normalizeStageResult stage value) fun _ => h).bind
    fun x run₁ h₁ => ?_
  rw [← h₁.1] at h
  cases x with
  | ok result => exact informs_recordCandidate h
  | error e =>
    refine (informs_recordStageFailure h).bind fun _ run₂ h₂ => ?_
    exact Informs.throw (h₂.sees rfl)

theorem observes_exhausted_error (policy : StagePolicy) (stage : String) (attempt : Nat) :
    Observes (exhausted policy stage attempt : WorkflowM S W (StageAttempt S)) run fun a =>
      a.handledError = some (stageError stage a.stageResult.outcome) := by
  unfold exhausted
  refine observes_runtime.bind fun rt _ _ _ => ?_
  cases policy.errorOutcome with
  | some outcome => exact Observes.pure rfl
  | none => exact Observes.throw (by simp)

theorem informs_executeAttempts {visit : Nat}
    (remaining attempt : Nat) (h : Informed d 1 0 run.runtime) :
    Informs d (executeAttempts d env definition stage visit remaining attempt) run fun a rt =>
      Informed d 1 0 rt ∧ Attempted rt stage a := by
  induction remaining generalizing attempt run with
  | zero => exact Informs.throw (h.sees rfl)
  | succ remaining ih =>
    unfold executeAttempts
    refine (Informs.of_observes (observes_cloneCommitted stage) (h.sees rfl)).bind
      fun stateBefore run₁ h₁ => ?_
    rw [← h₁.1] at h
    refine (Informs.of_observes (observes_normalizeClone _ _) (h.sees rfl)).bind
      fun input run₂ h₂ => ?_
    rw [← h₂.1] at h
    refine (informs_invokeStage h).bind fun x run₃ h₃ => ?_
    cases x with
    | ok value => exact informs_finishAttempt h₃
    | error typeName =>
      refine (informs_recordStageFailure h₃).bind fun _ run₄ h₄ => ?_
      split
      · refine (Informs.of_observes (observes_waitBeforeRetry _ _) (h₄.sees rfl)).bind
          fun _ run₅ h₅ => ?_
        rw [← h₅.1] at h₄
        exact ih (attempt + 1) h₄
      · refine (Informs.of_observes (observes_exhausted_error _ stage attempt) (h₄.sees rfl)).mono
          fun a rt hrt => ?_
        rw [hrt.1]
        exact ⟨h₄, Or.inr hrt.2⟩

variable {validation : ValidationDecision S}

theorem informs_decideStage {attempt : StageAttempt S}
    (h : Informed d 1 0 run.runtime)
    (hindex : ∀ index, attempt.recordIndex = some index → index < run.runtime.stages.length)
    (hrecords : validationsOf run.runtime.stages attempt.recordIndex = validation.records)
    (hblocked : validation.passed = false → ∃ result, validation.result = some result ∧
      blocking d.settings validation.records = some result) :
    Informs d (decideStage d stage attempt validation) run fun decision rt =>
      Deciding d decision rt := by
  unfold decideStage
  refine (Informs.runtime (h.sees rfl)).bind fun rt run₁ h₁ => ?_
  obtain ⟨hsame, rfl⟩ := h₁
  rw [← hsame] at h hindex hrecords
  split
  · exact Informs.throw (h.sees rfl)
  split
  · refine Informs.pure (h.deciding hindex (fun t ht => ?_) (Or.inl ⟨rfl, rfl⟩))
    exact (origin_of_stage_outcome ht.trigger_eq).symm
  · next hpassed =>
    obtain ⟨result, hresult, hblocking⟩ := hblocked (by simpa using hpassed)
    unfold rejectedStageDecision
    refine (Informs.runtime (h.sees rfl)).bind fun rt run₂ h₂ => Informs.pure ?_
    rw [h₂.1]
    refine h.deciding hindex (fun t ht => ?_) (Or.inr ⟨rfl, by simp [recoveryTriggers], by simp⟩)
    rw [origin_of_stage_validation ht.trigger_eq, ht.stageRecord_eq, ht.source_eq]
    show [_] = (blocking _ (validationsOf _ attempt.recordIndex)).toList.map _
    rw [hrecords, hblocking, hresult]
    rfl

theorem informs_validateStage {attempt : StageAttempt S} {index : Nat} (h : Informed d 1 0 run.runtime)
    (hattempt : attempt.recordIndex = some index) (hlt : index < run.runtime.stages.length)
    (huntried : Untried run.runtime.transitions index) :
    Informs d (validateStage d env definition stage attempt) run fun decision rt =>
      Deciding d decision rt := by
  unfold validateStage
  refine (Informs.of_observes (observes_inspectionResult _ _) (h.sees rfl)).bind
    fun inspection run₁ h₁ => ?_
  rw [← h₁.1] at h hlt huntried
  refine (Informs.of_observes (observes_normalizeClone _ _) (h.sees rfl)).bind
    fun before run₂ h₂ => ?_
  rw [← h₂.1] at h hlt huntried
  refine (Informs.runtime (h.sees rfl)).bind fun rt run₃ h₃ => ?_
  rw [← h₃.1] at h hlt huntried
  refine (Informs.of_observes (observes_evaluate_blocked _ _ _) (h.sees rfl)).bind
    fun validation run₄ h₄ => ?_
  rw [← h₄.1] at h hlt huntried
  have hattached := h.attach huntried validation.records
  rw [hattempt]
  unfold attachStageValidations
  refine Informs.bind (Informs.modifyRuntime (hattached.sees rfl)) fun _ run₅ h₅ => ?_
  rw [← h₅] at hattached
  refine informs_decideStage hattached (fun i hi => ?_) ?_ h₄.2
  · rw [hattempt] at hi
    cases hi
    rw [h₅]
    show index < (run₄.runtime.stages.modify index _).length
    rw [List.length_modify]
    exact hlt
  · rw [hattempt, h₅]
    show (((run₄.runtime.stages.modify index _)[index]?).map _).getD [] = _
    rw [List.getElem?_modify_eq, List.getElem?_eq_getElem hlt]
    rfl

theorem informs_handledStageError {attempt : StageAttempt S}
    (h : Informed d 1 0 run.runtime) :
    Informs d (handledStageError stage attempt (stageError stage attempt.stageResult.outcome)) run
      fun decision rt => Deciding d decision rt := by
  unfold handledStageError
  refine (Informs.runtime (h.sees rfl)).bind fun rt run₁ h₁ => Informs.pure ?_
  rw [← h₁.1] at h
  refine h.deciding (fun _ hi => by cases hi) (fun t ht => ?_)
    (Or.inr ⟨rfl, by simp [recoveryTriggers], by simp⟩)
  unfold origin
  rw [if_pos ht.trigger_eq, ht.source_eq, ht.outcome_eq]
  rfl

theorem informs_runStage (h : Informed d 0 0 run.runtime) :
    Informs d (runStage d env stage) run fun decision rt => Deciding d decision rt := by
  unfold runStage
  cases d.stages.lookup stage with
  | none => exact Informs.throw (h.sees rfl)
  | some definition =>
    have hvisit : Informs d (nextVisit stage) run fun _ rt => Informed d 1 0 rt := by
      unfold nextVisit
      refine (Informs.runtime (h.sees rfl)).bind fun rt run₁ h₁ => ?_
      rw [← h₁.1] at h
      have hvisited : Informed d 1 0 { run₁.runtime with
          visits := Function.update run₁.runtime.visits stage (rt.visits stage + 1)
          stageVisits := run₁.runtime.stageVisits ++ [(stage, rt.visits stage + 1)] } := by
        refine ⟨h.feedback_eq, h.ends, h.recorded, h.commits_eq, ?_, h.invocations_eq⟩
        show (run₁.runtime.stageVisits ++ [_]).length = _
        rw [List.length_append, h.visits_eq]
        rfl
      refine (Informs.modifyRuntime (hvisited.sees rfl)).bind fun _ run₂ h₂ => Informs.pure ?_
      rw [h₂]
      exact hvisited
    refine hvisit.bind fun visit run₁ h₁ => ?_
    refine (informs_executeAttempts _ 1 h₁).bind fun attempt run₂ h₂ => ?_
    rcases h₂.2 with ⟨hnone, index, hindex, hlt, huntried⟩ | herror
    · rw [hnone]
      exact informs_validateStage h₂.1 hindex hlt huntried
    · rw [herror]
      exact informs_handledStageError h₂.1

/-! ### Transitions -/

theorem counted {decision : StageDecision S} {rt : RunState S} (h : Deciding d decision rt)
    (selections transitionCount : Nat) (guardRuns : List Nat) :
    Deciding d decision { rt with
      selections := selections, transitionCount := transitionCount, guardRuns := guardRuns } :=
  ⟨h.trail, h.cause, h.recorded, h.index_lt, h.commits_eq, h.visits_eq, h.invocations_eq⟩

theorem informs_selectRoute {decision : StageDecision S} (h : Deciding d decision run.runtime) :
    Informs d (selectRoute d decision) run fun _ rt => Deciding d decision rt := by
  unfold selectRoute
  have hselected := counted h (run.runtime.selections + 1) run.runtime.transitionCount
    run.runtime.guardRuns
  refine (Informs.modifyRuntime hselected.sees).bind fun _ run₁ h₁ => ?_
  rw [← h₁] at hselected
  cases d.routes.lookup (decision.source, decision.outcome) with
  | none => exact Informs.throw hselected.sees
  | some route =>
    cases route with
    | direct route => exact Informs.pure hselected
    | branch router routes =>
      show Informs d (selectBranch d decision router routes) run₁ _
      unfold selectBranch
      refine (Informs.of_observes (observes_inspectionResult _ _) hselected.sees).bind
        fun seen run₂ h₂ => ?_
      rw [← h₂.1] at hselected
      refine (Informs.of_observes (observes_call _ _) hselected.sees).bind fun reply run₃ h₃ => ?_
      rw [← h₃.1] at hselected
      cases reply with
      | error typeName => exact Informs.throw hselected.sees
      | ok rawKey =>
        dsimp only
        cases routes.lookup ((rawKey.map strip).getD "") with
        | none => exact Informs.throw hselected.sees
        | some destination => exact Informs.pure hselected

theorem informs_consumeTransition {decision : StageDecision S}
    (h : Deciding d decision run.runtime) :
    Informs d consumeTransition run fun _ rt => Deciding d decision rt := by
  unfold consumeTransition
  refine (Informs.runtime h.sees).bind fun rt run₁ h₁ => ?_
  rw [← h₁.1] at h
  have hcounted := counted h run₁.runtime.selections (run₁.runtime.transitionCount + 1)
    run₁.runtime.guardRuns
  refine Informs.bind (Q := fun _ rt => Deciding d decision rt) ?_ fun _ run₂ h₂ => Informs.pure h₂
  refine (Informs.modifyRuntime hcounted.sees).mono fun _ rt' hrt => ?_
  rw [hrt]
  exact hcounted

variable {selected : SelectedRoute S W}

variable {sequence : Nat}

theorem informs_runGuards {decision : StageDecision S}
    (h : Deciding d decision run.runtime) :
    Informs d (runGuards d env decision selected sequence) run fun validation rt =>
      Deciding d decision rt ∧ (validation.passed = false → ∃ result,
        validation.result = some result ∧
          blocking d.settings validation.records = some result) := by
  unfold runGuards
  have hguarding := counted h run.runtime.selections run.runtime.transitionCount
    (run.runtime.guardRuns ++ [sequence])
  refine (Informs.modifyRuntime hguarding.sees).bind fun _ run₁ h₁ => ?_
  rw [← h₁] at hguarding
  refine (Informs.of_observes (observes_inspectionResult _ _) hguarding.sees).bind
    fun inspection run₂ h₂ => ?_
  rw [← h₂.1] at hguarding
  refine (Informs.runtime hguarding.sees).bind fun rt run₃ h₃ => ?_
  rw [← h₃.1] at hguarding
  refine (Informs.of_observes (observes_normalizeClone _ _) hguarding.sees).bind
    fun before run₄ h₄ => ?_
  rw [← h₄.1] at hguarding
  refine (Informs.of_observes (observes_evaluate_blocked _ _ _) hguarding.sees).mono
    fun validation rt hrt => ?_
  rw [hrt.1]
  exact ⟨hguarding, hrt.2⟩

theorem informs_settle {decision : StageDecision S}
    (h : Deciding d decision run.runtime) :
    Informs d (settle d env decision selected sequence validation) run fun _ rt =>
      Carried decision sequence run.runtime rt := by
  unfold settle
  split
  · next hcommit =>
    refine (Informs.of_observes (observes_normalizeClone _ _) h.sees).bind fun state run₁ h₁ => ?_
    have hlength := length_acceptStage decision.stageRecordIndex run₁.runtime.stages
    have hquiet : run₁.runtime.invocations
        = (acceptStage decision.stageRecordIndex run₁.runtime.stages).length := by
      rw [hlength, h₁.1]
      exact h.invocations_eq
    refine Informs.bind (Informs.modifyRuntime (Sees.of_invocations_eq hquiet)) fun _ run₂ h₂ => ?_
    have hquiet₂ : run₂.runtime.invocations = run₂.runtime.stages.length := by
      rw [h₂]
      exact hquiet
    refine (Informs.emit _ _ (Sees.of_invocations_eq hquiet₂)).bind fun _ run₃ h₃ => ?_
    rw [← h₃] at hquiet₂
    refine (Informs.modifyRuntime (Sees.of_invocations_eq hquiet₂)).mono fun _ rt hrt => ?_
    rw [hrt, h₃, h₂, h₁.1]
    refine ⟨?_, rfl, length_acceptStage _ _, validations_acceptStage _ _, ?_, rfl, rfl⟩
    · unfold StageDecision.carried
      rw [hcommit]
      rfl
    · rw [hcommit]
      exact List.map_append ..
  · next hcommit =>
    have hcan : decision.canCommit = false := by simpa using hcommit
    refine (Informs.modifyRuntime (Sees.of_invocations_eq h.invocations_eq)).mono fun _ rt hrt => ?_
    rw [hrt]
    refine ⟨(Deciding.carried_of_not_canCommit hcan).symm, rfl, rfl, fun _ => rfl, ?_, rfl, rfl⟩
    rw [hcan]
    exact (List.append_nil _).symm

theorem informs_acceptTransition {decision : StageDecision S}
    (h : Deciding d decision run.runtime) :
    Informs d (acceptTransition d env decision selected sequence validation) run fun _ rt =>
      Carried decision sequence run.runtime rt := by
  unfold acceptTransition
  refine (informs_settle h).bind fun _ run₁ h₁ => ?_
  have hquiet : run₁.runtime.invocations = run₁.runtime.stages.length := by
    rw [h₁.invocations_eq, h₁.length_eq]
    exact h.invocations_eq
  unfold enterTarget
  split
  · exact Informs.pure h₁
  · refine Informs.bind (Informs.modifyRuntime (Sees.of_invocations_eq hquiet))
      fun _ run₂ h₂ => Informs.pure ?_
    rw [h₂]
    exact ⟨h₁.feedback_eq, h₁.transitions_eq, h₁.length_eq, h₁.validations_eq, h₁.commits_eq,
      h₁.stageVisits_eq, h₁.invocations_eq⟩

theorem informs_redirectGuardRejection {decision : StageDecision S} {rt : RunState S}
    {result : ValidationResult}
    (h : Deciding d decision rt) (ht : IsRecordOf decision t) (hrefused : t.accepted = false)
    (hrecords : t.validations = validation.records) (hresult : validation.result = some result)
    (hblocking : blocking d.settings validation.records = some result)
    (hrun : run.runtime = { rt with transitions := rt.transitions ++ [t] }) :
    Informs d (redirectGuardRejection d env decision validation) run fun redirected rt' =>
      Deciding d redirected rt' := by
  have hquiet : run.runtime.invocations = run.runtime.stages.length := by
    rw [hrun]
    exact h.invocations_eq
  have hguard : guardRejection d.settings t
      = [validationFeedback "transition_guard" decision.source result] := by
    unfold guardRejection
    rw [hrecords, hblocking, ht.source_eq]
    rfl
  unfold redirectGuardRejection
  refine (Informs.emit _ _ (Sees.of_invocations_eq hquiet)).bind fun _ run₁ h₁ => ?_
  rw [← h₁] at hquiet
  refine (Informs.runtime (Sees.of_invocations_eq hquiet)).bind fun _ run₂ h₂ => Informs.pure ?_
  rw [h₂.1, h₁, hrun]
  refine h.redirect ht hrefused ?_ ?_ rfl rfl rfl
  · rw [hguard, hresult]
    rfl
  · rw [hguard]
    simp

theorem informs_tryTransition {decision : StageDecision S}
    (h : Deciding d decision run.runtime) :
    Informs d (tryTransition d env decision selected sequence) run fun outcome rt =>
      match outcome with
      | .inl _ => Informed d 0 0 rt
      | .inr redirected => Deciding d redirected rt := by
  unfold tryTransition
  refine (informs_runGuards h).bind fun guards run₁ h₁ => ?_
  obtain ⟨hdeciding, hblocked⟩ := h₁
  split
  · refine Informs.bind (Informs.modifyRuntime (Sees.of_invocations_eq hdeciding.invocations_eq))
      fun _ run₂ h₂ => Informs.throw (Sees.of_invocations_eq ?_)
    rw [h₂]
    exact hdeciding.invocations_eq
  split
  · refine (informs_acceptTransition hdeciding).bind fun terminal run₂ h₂ => ?_
    have hinformed := hdeciding.accept (t := {
      sequence := sequence, source := decision.source, target := selected.target
      outcome := decision.outcome, accepted := true, trigger := decision.trigger
      validations := guards.records, stageRecord := decision.stageRecordIndex })
      h₂ ⟨rfl, rfl, rfl, rfl⟩ rfl
    refine Informs.bind (Informs.modifyRuntime (hinformed.sees rfl)) fun _ run₃ h₃ =>
      Informs.pure ?_
    show Informed d 0 0 run₃.runtime
    rw [h₃]
    exact hinformed
  · next hpassed =>
    obtain ⟨result, hresult, hblocking⟩ := hblocked (by simpa using hpassed)
    refine Informs.bind (Informs.modifyRuntime (Sees.of_invocations_eq hdeciding.invocations_eq))
      fun _ run₂ h₂ => (wp_map _ _).mpr ?_
    exact informs_redirectGuardRejection hdeciding ⟨rfl, rfl, rfl, rfl⟩ rfl rfl hresult hblocking h₂

theorem informs_advance (fuel : Nat) {decision : StageDecision S}
    (h : Deciding d decision run.runtime) :
    Informs d (advance d env fuel decision) run fun _ rt => Informed d 0 0 rt := by
  induction fuel generalizing decision run with
  | zero => exact Informs.throw h.sees
  | succ fuel ih =>
    unfold advance
    refine (informs_selectRoute h).bind fun selected run₁ h₁ => ?_
    refine (informs_consumeTransition h₁).bind fun sequence run₂ h₂ => ?_
    refine (Informs.emit _ _ h₂.sees).bind fun _ run₃ h₃ => ?_
    rw [← h₃] at h₂
    split
    · unfold raiseTransitionLimit
      refine Informs.bind (Informs.modifyRuntime (Sees.of_invocations_eq h₂.invocations_eq))
        fun _ run₄ h₄ => Informs.throw (Sees.of_invocations_eq ?_)
      rw [h₄]
      exact h₂.invocations_eq
    · refine (informs_tryTransition h₂).bind fun outcome run₄ h₄ => ?_
      cases outcome with
      | inl terminal => exact Informs.pure h₄
      | inr redirected => exact ih h₄

/-! ### The run -/

theorem informs_executeStages (fuel : Nat) (h : Informed d 0 0 run.runtime) :
    Informs d (executeStages d env fuel) run fun _ rt => Informed d 0 0 rt := by
  induction fuel generalizing run with
  | zero => exact Informs.throw (h.sees rfl)
  | succ fuel ih =>
    unfold executeStages
    refine (Informs.runtime (h.sees rfl)).bind fun rt run₁ h₁ => ?_
    rw [← h₁.1] at h
    refine (informs_runStage h).bind fun decision run₂ h₂ => ?_
    refine (informs_advance (fuel + 1) h₂).bind fun terminal run₃ h₃ => ?_
    cases terminal with
    | none => exact ih h₃
    | some terminal =>
      show Informs d (finish d env terminal) run₃ _
      unfold finish
      cases d.terminals.lookup terminal with
      | none => exact Informs.throw (h₃.sees rfl)
      | some status =>
        refine (Informs.emit _ _ (h₃.sees rfl)).bind fun _ run₄ h₄ => ?_
        rw [← h₄] at h₃
        exact (wp_bind _ _).mpr (wp_get.mpr (Informs.pure h₃))

theorem informed_start (committed : S) :
    Informed d 0 0 { committedState := committed, currentStage := d.entry } where
  feedback_eq := rfl
  ends := fun _ h => by cases h
  recorded := fun _ h => by cases h
  commits_eq := rfl
  visits_eq := rfl
  invocations_eq := rfl

theorem informs_execute (d : CompiledGraph S W) (env : Surroundings W) (fuel : Nat)
    (initialState : S) (world : W) :
    Informs d (execute d env fuel initialState) (WorkflowRun.start d initialState world)
      fun _ rt => Informed d 0 0 rt := by
  unfold execute Informs
  have hstart : Informed d 0 0 (WorkflowRun.start d initialState world).runtime :=
    informed_start initialState
  refine (wp_tryCatch _ _).mpr (wp_post (?_ : Informs d _ _ fun _ rt => Informed d 0 0 rt)
    (fun _ _ h => h) fun e run' hsees => ?_)
  · refine (Informs.emit _ _ (hstart.sees rfl)).bind fun _ run₁ h₁ => ?_
    refine (Informs.of_observes (observes_normalizeClone _ _) ?_).bind fun committed run₂ h₂ => ?_
    · exact Informs.sees_of_runtime_eq (hstart.sees rfl) h₁
    have hstarted : Informed d 0 0 { run₂.runtime with committedState := committed } := by
      rw [h₂.1, h₁]
      exact informed_start committed
    refine (Informs.modifyRuntime (hstarted.sees rfl)).bind fun _ run₃ h₃ => ?_
    rw [← h₃] at hstarted
    exact informs_executeStages fuel hstarted
  · show Informs d _ run' fun _ rt => Informed d 0 0 rt
    refine Informs.bind (Informs.of_observes observes_emitFailure hsees) fun _ run₁ h₁ => ?_
    exact Informs.throw (Informs.sees_of_runtime_eq hsees h₁.1)

end WorkflowM

/-! ### What holds of a whole run -/

section

variable {d : CompiledGraph S W} {env : Surroundings W} {fuel : Nat} {initialState : S} {world : W}
  {run : WorkflowRun S W}

theorem sees_of_mem_configurations (h : run ∈ configurations d env fuel initialState world) :
    Sees d run := by
  have hruns := WorkflowM.informs_execute d env fuel initialState world
  rcases List.mem_append.mp h with hvisited | hfinal
  · exact hruns.1 run hvisited
  · rw [List.mem_singleton.mp hfinal]
    have hend := hruns.2
    unfold runOf
    split at hend
    · exact hend.sees rfl
    · exact hend

theorem Informed.commits_last {visits calls : Nat} {rt : RunState S}
    {last : TransitionRecord S} (h : Informed d visits calls rt)
    (hnumbered : (rt.transitions.map (·.sequence)).Nodup) (hlast : rt.transitions.getLast? = some last) :
    (∃ commit ∈ rt.commits, commit.sequence = last.sequence) ↔ last.trigger = "stage_outcome" := by
  have hmem : last ∈ rt.transitions := List.mem_of_getLast? hlast
  have haccepted := (h.ends last hlast).1
  have hsame : (∃ commit ∈ rt.commits, commit.sequence = last.sequence)
      ↔ last.sequence ∈ (rt.transitions.filter (·.commits)).map (·.sequence) := by
    rw [← h.commits_eq, List.mem_map]
  have hcommits : last.commits = true ↔ last.trigger = "stage_outcome" := by
    unfold TransitionRecord.commits
    rw [haccepted, Bool.true_and, decide_eq_true_iff]
  rw [hsame, ← hcommits, List.mem_map]
  constructor
  · rintro ⟨t, ht, hsequence⟩
    obtain ⟨htmem, htcommits⟩ := List.mem_filter.mp ht
    rw [← List.inj_on_of_nodup_map hnumbered htmem hmem hsequence]
    exact htcommits
  · intro hlastCommits
    exact ⟨last, List.mem_filter.mpr ⟨hmem, hlastCommits⟩, rfl⟩

theorem Informed.length_eq_one {calls : Nat} {rt : RunState S} (h : Informed d 1 calls rt) :
    rt.stageVisits.length = 1 ↔ rt.transitions = [] := by
  rw [h.visits_eq]
  constructor
  · intro hone
    rcases List.eq_nil_or_concat' rt.transitions with hnil | ⟨before, last, hsplit⟩
    · exact hnil
    · have haccepted := (h.ends last (by rw [hsplit, List.getLast?_concat])).1
      rw [hsplit, List.countP_append, List.countP_singleton, haccepted, if_pos rfl] at hone
      omega
  · intro hnil
    rw [hnil]
    rfl

end

/-- Whenever a stage is called, the feedback it gets is the rejections since the last stage work, in
order. There is some if and only if the last transition, which led to the stage, comes from a stage
rejection, a guard redirect or a handled stage error; there is none on the first visit of a run and after
a commit, and only there. -/
theorem feedback_of_run (d : CompiledGraph S W) (env : Surroundings W) (fuel : Nat) (initialState : S)
    (world : W) (run : WorkflowRun S W) (hrun : run ∈ configurations d env fuel initialState world)
    (hcalling : run.runtime.Calling) :
    run.runtime.feedback = rejections d.settings run.runtime.stages
        (sinceStageWork run.runtime.transitions) ∧
      (run.runtime.feedback ≠ [] ↔ ∃ last, run.runtime.transitions.getLast? = some last ∧
        last.trigger ∈ ["stage_validation", "transition_guard", "stage_error"]) ∧
      (run.runtime.feedback = [] ↔ run.runtime.stageVisits.length = 1 ∨
        ∃ last, run.runtime.transitions.getLast? = some last ∧
          ∃ commit ∈ run.runtime.commits, commit.sequence = last.sequence) := by
  have h := sees_of_mem_configurations hrun hcalling
  obtain ⟨phase, hat⟩ := reached_of_mem_configurations hrun
  have hnumbered : (run.runtime.transitions.map (·.sequence)).Nodup := by
    rw [(Traced.of_reaches hat).numbered]
    exact List.nodup_range'
  refine ⟨h.feedback_eq, ?_⟩
  rw [h.length_eq_one]
  cases hlast : run.runtime.transitions.getLast? with
  | none =>
    have hnil : run.runtime.transitions = [] := List.getLast?_eq_none_iff.mp hlast
    have hempty : run.runtime.feedback = [] := by
      rw [h.feedback_eq, hnil]
      rfl
    simp [hempty, hnil]
  | some last =>
    have hne : run.runtime.transitions ≠ [] := by
      intro hnil
      rw [hnil] at hlast
      cases hlast
    have hcommit := h.commits_last hnumbered hlast
    have hlast' : ∀ other, some last = some other → other = last :=
      fun other hother => (Option.some.inj hother).symm
    have hdisjoint : "stage_outcome" ∉ recoveryTriggers := by decide
    obtain ⟨-, ⟨htrigger, hempty⟩ | ⟨htrigger, hsome⟩⟩ := h.ends last hlast
    · constructor
      · constructor
        · exact fun hsome => absurd hempty hsome
        · rintro ⟨other, hother, hrecovers⟩
          rw [hlast' other hother, htrigger] at hrecovers
          exact absurd hrecovers hdisjoint
      · exact ⟨fun _ => Or.inr ⟨last, rfl, hcommit.mpr htrigger⟩, fun _ => hempty⟩
    · constructor
      · exact ⟨fun _ => ⟨last, rfl, htrigger⟩, fun _ => hsome⟩
      · constructor
        · exact fun hempty => absurd hempty hsome
        · rintro (hnil | ⟨other, hother, hcommitted⟩)
          · exact absurd hnil hne
          · rw [hlast' other hother, hcommit] at hcommitted
            rw [hcommitted] at htrigger
            exact absurd htrigger hdisjoint

/-! ### A run with two guard redirects -/

def refusing (code : String) : Validator Nat Unit where
  name := code
  validate _ w := (.ok (some ⟨.reject, code, "refused"⟩), w)

/-- A draft that two guards refuse, one after the other, and its repair. -/
def redirected : CompiledGraph Nat Unit where
  stateContract := ⟨fun s w => (.ok s, w), fun s w => (.ok s, w)⟩
  stages := [
    ("draft", ⟨fun context w => (.ok (some ⟨context.state + 1, "done"⟩), w), [], {}⟩),
    ("repair", ⟨fun context w => (.ok (some ⟨context.state, "fixed"⟩), w), [], {}⟩)]
  entry := "draft"
  terminals := [("end", .succeeded)]
  routes := [(("draft", "done"), .direct ⟨"end", [refusing "unsafe"]⟩),
    (("draft", "unsafe"), .direct ⟨"end", [refusing "unclear"]⟩),
    (("draft", "unclear"), .direct ⟨"repair", []⟩),
    (("repair", "fixed"), .direct ⟨"end", []⟩)]
  settings := {}

def redirectedRun : List (WorkflowRun Nat Unit) :=
  configurations redirected ⟨[], fun _ _ w => (none, w)⟩ 5 0 ()

theorem lt_length_redirectedRun : 74 < redirectedRun.length := by decide +kernel

def repairCall : WorkflowRun Nat Unit := redirectedRun.get ⟨74, lt_length_redirectedRun⟩

theorem calling_repairCall : repairCall.runtime.Calling := by
  unfold RunState.Calling
  decide +kernel

/-- The repair is called with both refusals, in order. -/
theorem feedback_of_run_redirected :
    repairCall.runtime.feedback = [⟨"transition_guard", "draft", "unsafe", "refused"⟩,
      ⟨"transition_guard", "draft", "unclear", "refused"⟩] ∧
    repairCall.runtime.feedback = rejections redirected.settings repairCall.runtime.stages
      (sinceStageWork repairCall.runtime.transitions) :=
  ⟨by decide +kernel, (feedback_of_run redirected ⟨[], fun _ _ w => (none, w)⟩ 5 0 () repairCall
    (List.get_mem _ _) calling_repairCall).1⟩

end VidbyteSdk.Workflows
