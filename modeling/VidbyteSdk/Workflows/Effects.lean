import VidbyteSdk.Workflows.Machine

/-!
# What the parts of a workflow run do

One lemma for each function of the machine. Caller code, events and clones leave the run state alone
(`Observed`), so what a run state satisfies holds across them; the lemmas about stage work and about one
transition say exactly how the run state changes.
-/

namespace VidbyteSdk.Workflows

open VidbyteSdk.Lib Prog

variable {S W : Type}

def WorkflowRun.committedEvents (run : WorkflowRun S W) : Nat :=
  run.recorder.events.countP (·.eventType = .stateCommitted)

def Observed (run run' : WorkflowRun S W) : Prop :=
  run'.runtime = run.runtime ∧ run'.committedEvents = run.committedEvents

namespace Observed

variable {a b c : WorkflowRun S W}

theorem refl (a : WorkflowRun S W) : Observed a a := ⟨rfl, rfl⟩

theorem trans (hab : Observed a b) (hbc : Observed b c) : Observed a c :=
  ⟨hbc.1.trans hab.1, hbc.2.trans hab.2⟩

end Observed

namespace WorkflowM

variable {α β : Type} {d : CompiledGraph S W} {env : Surroundings W} {run : WorkflowRun S W}

/-- A program that leaves the run state alone and needs no fuel, with what holds of its value. -/
def Observes (m : WorkflowM S W α) (run : WorkflowRun S W) (Q : α → Prop) : Prop :=
  wp (Observed run) m (fun a run' => Observed run run' ∧ Q a)
    (fun e run' => Observed run run' ∧ e ≠ .outOfFuel) run

namespace Observes

variable {m : WorkflowM S W α} {Q : α → Prop}

theorem mono {Q' : α → Prop} (h : Observes m run Q) (hQ : ∀ a, Q a → Q' a) : Observes m run Q' :=
  wp_post h (fun a _ hh => ⟨hh.1, hQ a hh.2⟩) fun _ _ hh => hh

theorem pure {a : α} (ha : Q a) : Observes (Pure.pure a) run Q :=
  (wp_pure a).mpr ⟨Observed.refl run, ha⟩

theorem throw {e : WorkflowFailure} (he : e ≠ .outOfFuel) :
    Observes (Prog.throw e : WorkflowM S W α) run Q :=
  (wp_throw e).mpr ⟨Observed.refl run, he⟩

theorem wp_bind {f : α → WorkflowM S W β} {I : WorkflowRun S W → Prop}
    {R : β → WorkflowRun S W → Prop} {E : WorkflowFailure → WorkflowRun S W → Prop}
    (h : Observes m run Q) (hI : ∀ run', Observed run run' → I run')
    (hE : ∀ e run', Observed run run' → e ≠ .outOfFuel → E e run')
    (hf : ∀ a run', Observed run run' → Q a → wp I (f a) R E run') : wp I (m >>= f) R E run := by
  rw [Prog.wp_bind]
  exact wp_mono h hI (fun a run' hh => hf a run' hh.1 hh.2) fun e run' hh => hE e run' hh.1 hh.2

theorem bind {f : α → WorkflowM S W β} {R : β → Prop} (h : Observes m run Q)
    (hf : ∀ a run', Observed run run' → Q a → Observes (f a) run' R) : Observes (m >>= f) run R := by
  refine h.wp_bind (fun _ ht => ht) (fun _ _ ht he => ⟨ht, he⟩) fun a run' hobs ha => ?_
  exact wp_mono (hf a run' hobs ha) (fun _ ht => hobs.trans ht)
    (fun _ _ ht => ⟨hobs.trans ht.1, ht.2⟩) fun _ _ ht => ⟨hobs.trans ht.1, ht.2⟩

theorem map {f : α → β} {R : β → Prop} (h : Observes m run Q) (hf : ∀ a, Q a → R (f a)) :
    Observes (f <$> m) run R :=
  (wp_map f m).mpr (wp_post h (fun a _ hh => ⟨hh.1, hf a hh.2⟩) fun _ _ hh => hh)

end Observes

/-! ### Caller code, events and clones -/

theorem observes_call (f : Callback W α β) (a : α) :
    Observes (call f a : WorkflowM S W (Except String β)) run
      fun x => ∀ b, x = .ok b → ∃ w, (f a w).1 = .ok b := by
  unfold Observes call
  rw [wp_bind, wp_get, wp_bind, wp_modify]
  refine ⟨Observed.refl run, ?_⟩
  cases hf : (f a run.world).1 with
  | ok b =>
    refine (wp_pure _).mpr ⟨⟨rfl, rfl⟩, fun b' hb => ?_⟩
    cases hb
    exact ⟨run.world, hf⟩
  | error raised =>
    cases raised with
    | exception typeName => exact (wp_pure _).mpr ⟨⟨rfl, rfl⟩, fun b' hb => by cases hb⟩
    | baseException typeName => exact (wp_throw _).mpr ⟨⟨rfl, rfl⟩, by simp⟩

theorem observes_runtime :
    Observes (runtime : WorkflowM S W (RunState S)) run fun rt => rt = run.runtime := by
  unfold Observes runtime
  rw [wp_bind, wp_get, wp_pure]
  exact ⟨Observed.refl run, rfl⟩

theorem observes_notify (event : WorkflowEvent) (observer : Observer W) :
    Observes (notify event observer : WorkflowM S W Unit) run fun _ => True := by
  unfold notify
  refine (observes_call observer.onEvent event).bind fun x run' _ _ => ?_
  cases x with
  | ok b => exact Observes.pure trivial
  | error typeName =>
    unfold Observes
    rw [wp_modify]
    exact ⟨⟨rfl, rfl⟩, ⟨rfl, rfl⟩, trivial⟩

theorem observes_forM {l : List α} {f : α → WorkflowM S W PUnit}
    (hf : ∀ a ∈ l, ∀ run', Observes (f a) run' fun _ => True) : Observes (forM l f) run fun _ => True := by
  induction l generalizing run with
  | nil => exact Observes.pure trivial
  | cons a l ih =>
    rw [List.forM_cons]
    refine (hf a (by simp) run).bind fun _ run' _ _ => ?_
    exact ih fun b hb => hf b (by simp [hb])

theorem emit_spec (eventType : WorkflowEventType) (stage : Option String) :
    let announced : WorkflowRun S W → Prop := fun run' => run'.runtime = run.runtime ∧
      run'.committedEvents = run.committedEvents + if eventType = .stateCommitted then 1 else 0
    wp announced (emit env eventType stage) (fun _ => announced)
      (fun e run' => announced run' ∧ e ≠ .outOfFuel) run := by
  intro announced
  have hnotify : ∀ run', announced run' → Observes (forM env.observers
      (notify ⟨run.recorder.events.length + 1, eventType, stage⟩)) run' fun _ => True :=
    fun run' _ => observes_forM fun observer _ run'' => observes_notify _ observer
  have hobs : ∀ run' run'', announced run' → Observed run' run'' → announced run'' :=
    fun run' run'' h ht => ⟨ht.1.trans h.1, ht.2.trans h.2⟩
  unfold emit
  rw [wp_bind, wp_get, wp_bind, wp_modify]
  have hfirst : announced { run with recorder := { run.recorder with events :=
      run.recorder.events ++ [⟨run.recorder.events.length + 1, eventType, stage⟩] } } := by
    refine ⟨rfl, ?_⟩
    unfold WorkflowRun.committedEvents
    rw [List.countP_append, List.countP_singleton]
    simp
  exact ⟨hfirst, wp_mono (hnotify _ hfirst) (fun _ ht => hobs _ _ hfirst ht)
    (fun _ _ ht => hobs _ _ hfirst ht.1) fun _ _ ht => ⟨hobs _ _ hfirst ht.1, ht.2⟩⟩

theorem observes_emit {eventType : WorkflowEventType} (hne : eventType ≠ .stateCommitted)
    (stage : Option String) : Observes (emit env eventType stage) run fun _ => True := by
  have hsame : ∀ run' : WorkflowRun S W, (run'.runtime = run.runtime ∧ run'.committedEvents =
      run.committedEvents + if eventType = .stateCommitted then 1 else 0) → Observed run run' := by
    intro run' h
    rw [if_neg hne] at h
    exact h
  apply wp_mono (emit_spec eventType stage)
  · exact hsame
  · exact fun _ run' h => ⟨hsame run' h, trivial⟩
  · exact fun _ run' h => ⟨hsame run' h.1, h.2⟩

theorem observes_orStateError (boundary : String) (x : Except String S) :
    Observes (orStateError boundary x : WorkflowM S W S) run fun s => x = .ok s := by
  cases x with
  | ok s => exact Observes.pure rfl
  | error e => exact Observes.throw (by simp)

theorem observes_normalizeClone (value : S) (boundary : String) :
    Observes (normalizeClone d value boundary) run
      fun s => d.stateContract.Lawful → s = value := by
  unfold normalizeClone
  refine (observes_call _ value).bind fun x _ _ hx => ?_
  refine (observes_orStateError _ x).bind fun s₁ _ _ h₁ => ?_
  refine (observes_call _ s₁).bind fun y _ _ hy => ?_
  refine (observes_orStateError _ y).bind fun s₂ _ _ h₂ => ?_
  refine (observes_call _ s₂).bind fun z _ _ hz => ?_
  refine (observes_orStateError _ z).mono fun s₃ h₃ hlawful => ?_
  obtain ⟨w₁, hw₁⟩ := hx s₁ h₁
  obtain ⟨w₂, hw₂⟩ := hy s₂ h₂
  obtain ⟨w₃, hw₃⟩ := hz s₃ h₃
  rw [hlawful.validate_eq _ _ _ hw₃, hlawful.clone_eq _ _ _ hw₂, hlawful.validate_eq _ _ _ hw₁]

theorem observes_cloneCommitted (stage : String) :
    Observes (cloneCommitted d stage) run fun _ => True := by
  unfold cloneCommitted
  refine observes_runtime.bind fun rt _ _ _ => ?_
  exact (observes_normalizeClone _ _).mono fun _ _ => trivial

theorem observes_snapshot (value : S) (boundary : String) :
    Observes (snapshot d value boundary) run fun _ => True := by
  unfold snapshot
  split
  · exact (observes_normalizeClone value boundary).map fun _ _ => trivial
  · exact Observes.pure trivial

theorem observes_inspectionResult (result : StageResult S) (boundary : String) :
    Observes (inspectionResult d result boundary) run
      fun inspection => d.stateContract.Lawful → inspection = result := by
  unfold inspectionResult
  refine (observes_normalizeClone _ _).bind fun s _ _ hs => ?_
  refine Observes.pure fun hlawful => ?_
  rw [hs hlawful]

/-! ### Gates -/

end WorkflowM

def EffectivelyPasses (settings : StateMachineSettings) (status : ValidationStatus) : Prop :=
  status = .pass ∨ settings.validatorErrorPolicy = .failOpen ∧ status ≠ .reject

def Replied (reply : Except Raised (Option ValidationResult)) (result : ValidationResult) : Prop :=
  match reply with
  | .ok (some returned) => result = returned
  | .ok none => result.status = .error
  | .error _ => result.status = .error

/-- The validator was asked about the candidate and effectively passed, as the record says. -/
structure Passed (settings : StateMachineSettings) (candidate : S) (validator : Validator S W)
    (record : ValidationRecord S) : Prop where
  name_eq : record.validator = validator.name
  candidate_eq : record.candidate = candidate
  passes : EffectivelyPasses settings record.result.status
  asked : ∃ (context : ValidationContext S) (w : W), context.candidateState = candidate ∧
    Replied (validator.validate context w).1 record.result

variable {records : List (ValidationRecord S)} {settings : StateMachineSettings}

theorem interpret_eq_none_iff {result : ValidationResult}
    :
    interpret settings result records = none ↔ EffectivelyPasses settings result.status := by
  unfold interpret EffectivelyPasses
  cases result.status <;> cases settings.validatorErrorPolicy <;> simp

theorem not_passed_of_interpret {result : ValidationResult}
    {decision : ValidationDecision S}
    (h : interpret settings result records = some decision) : decision.passed = false := by
  unfold interpret at h
  split at h
  · cases h
  · cases h
    rfl
  · split at h
    · cases h
    · cases h
      rfl
    · cases h
      rfl

namespace WorkflowM

variable {α : Type} {d : CompiledGraph S W} {env : Surroundings W} {run : WorkflowRun S W}

theorem observes_evaluateOne (validator : Validator S W) (context : ValidationContext S) :
    Observes (evaluateOne d env validator context) run fun record =>
      EffectivelyPasses d.settings record.result.status →
        Passed d.settings context.candidateState validator record := by
  unfold evaluateOne
  have hinvoke : Observes (invokeValidator d validator context) run fun result =>
      ∃ w, Replied (validator.validate context w).1 result := by
    unfold invokeValidator call
    unfold Observes
    rw [wp_bind, wp_bind, wp_get, wp_bind, wp_modify]
    refine ⟨Observed.refl run, ?_⟩
    cases hreply : (validator.validate context run.world).1 with
    | ok reply =>
      rw [wp_pure]
      cases reply with
      | none => exact (wp_pure _).mpr ⟨⟨rfl, rfl⟩, run.world, by simp [Replied, hreply]⟩
      | some result => exact (wp_pure _).mpr ⟨⟨rfl, rfl⟩, run.world, by simp [Replied, hreply]⟩
    | error raised =>
      cases raised with
      | exception typeName =>
        simp only [wp_pure]
        exact ⟨⟨rfl, rfl⟩, run.world, by simp [Replied, hreply]⟩
      | baseException typeName => exact (wp_throw _).mpr ⟨⟨rfl, rfl⟩, by simp⟩
  refine hinvoke.bind fun result _ _ hresult => ?_
  refine (observes_emit (by simp) _).bind fun _ _ _ _ => Observes.pure fun hpass => ?_
  obtain ⟨w, hw⟩ := hresult
  exact ⟨rfl, rfl, hpass, context, w, rfl, hw⟩

theorem observes_evaluate (context : ValidationContext S) (validators : List (Validator S W))
    (records : List (ValidationRecord S)) :
    Observes (evaluate d env context validators records) run fun decision =>
      decision.passed = true → ∃ new, decision.records = records ++ new ∧
        List.Forall₂ (Passed d.settings context.candidateState) validators new := by
  induction validators generalizing records run with
  | nil => exact Observes.pure fun _ => ⟨[], by simp, List.Forall₂.nil⟩
  | cons validator validators ih =>
    unfold evaluate
    refine (observes_evaluateOne validator context).bind fun record _ _ hrecord => ?_
    cases hinterpret : interpret d.settings record.result (records ++ [record]) with
    | some decision =>
      refine Observes.pure fun hpassed => ?_
      rw [not_passed_of_interpret hinterpret] at hpassed
      cases hpassed
    | none =>
      refine (ih (records ++ [record])).mono fun decision hdecision hpassed => ?_
      obtain ⟨new, hnew, hall⟩ := hdecision hpassed
      refine ⟨record :: new, by simpa using hnew, List.Forall₂.cons ?_ hall⟩
      exact hrecord (interpret_eq_none_iff.mp hinterpret)

end WorkflowM

end VidbyteSdk.Workflows
