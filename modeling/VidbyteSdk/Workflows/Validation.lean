import VidbyteSdk.Workflows.Machine

/-!
# Composite validators

`AllOfValidator` of `workflows/validation.py`, and what becomes of a sequence of gates when it is
grouped into one. A `Child` is a validator whose verdict on a context is its own; what it does to the
world is free. Scores and the evidence that a composite attaches to its result are left out.
-/

namespace VidbyteSdk.Workflows

open VidbyteSdk.Lib Prog

variable {S W : Type}

/-! ### The conjunction of validators -/

/-- `_invoke_child`: an exception or a wrong value becomes an error result. -/
def childResult (validator : Validator S W) :
    Except Raised (Option ValidationResult) → Except Raised ValidationResult
  | .ok (some result) => .ok result
  | .ok none => .ok ⟨.error, "invalid_validator_result",
      s!"Child validator '{validator.name}' returned another type."⟩
  | .error (.exception typeName) => .ok ⟨.error, "validator_exception",
      s!"Child validator '{validator.name}' raised {typeName}."⟩
  | .error (.baseException typeName) => .error (.baseException typeName)

/-- `AllOfValidator.validate`: stops at the first non-pass. -/
def validateAll (context : ValidationContext S) :
    List (Validator S W) → W → Except Raised (Option ValidationResult) × W
  | [], w => (.ok (some ⟨.pass, "pass", ""⟩), w)
  | validator :: validators, w =>
    match childResult validator (validator.validate context w).1 with
    | .error raised => (.error raised, (validator.validate context w).2)
    | .ok result =>
      if result.status = .pass then validateAll context validators (validator.validate context w).2
      else (.ok (some result), (validator.validate context w).2)

def allOfValidator (name : String) (validators : List (Validator S W)) : Validator S W where
  name := name
  validate context w := validateAll context validators w

/-! ### Children -/

structure Child (S W : Type) extends Validator S W where
  outcome : ValidationContext S → Except Raised (Option ValidationResult)
  validate_fst : ∀ context w, (validate context w).1 = outcome context

/-- What an outcome comes to; nothing where it ends the run. -/
def standing : Except Raised (Option ValidationResult) → Option ValidationStatus
  | .ok (some result) => some result.status
  | .ok none => some .error
  | .error (.exception _) => some .error
  | .error (.baseException _) => none

def Child.standing (child : Child S W) (context : ValidationContext S) : Option ValidationStatus :=
  Workflows.standing (child.outcome context)

def firstNonPass (context : ValidationContext S) (children : List (Child S W)) :
    Option (Child S W) :=
  children.find? fun child => child.standing context ≠ some .pass

def allOutcome (context : ValidationContext S) :
    List (Child S W) → Except Raised (Option ValidationResult)
  | [] => .ok (some ⟨.pass, "pass", ""⟩)
  | child :: children =>
    match childResult child.toValidator (child.outcome context) with
    | .error raised => .error raised
    | .ok result => if result.status = .pass then allOutcome context children else .ok (some result)

theorem validateAll_fst (context : ValidationContext S) (children : List (Child S W)) (w : W) :
    (validateAll context (children.map Child.toValidator) w).1 = allOutcome context children := by
  induction children generalizing w with
  | nil => rfl
  | cons child children ih =>
    rw [List.map_cons, validateAll, allOutcome, child.validate_fst]
    cases childResult child.toValidator (child.outcome context) with
    | error raised => rfl
    | ok result =>
      simp only
      split
      · exact ih _
      · rfl

def allOf (name : String) (children : List (Child S W)) : Child S W where
  toValidator := allOfValidator name (children.map Child.toValidator)
  outcome context := allOutcome context children
  validate_fst context w := validateAll_fst context children w

theorem standing_allOf (name : String) (context : ValidationContext S)
    (children : List (Child S W)) : (allOf name children).standing context =
      match firstNonPass context children with
      | none => some .pass
      | some child => child.standing context := by
  show standing (allOutcome context children) = _
  induction children with
  | nil => rfl
  | cons child children ih =>
    rw [allOutcome, firstNonPass, List.find?_cons]
    cases houtcome : child.outcome context with
    | error raised => cases raised <;> simp [childResult, Child.standing, standing, houtcome]
    | ok result =>
      cases result with
      | none => simp [childResult, Child.standing, standing, houtcome]
      | some result =>
        by_cases hpass : result.status = .pass
        · simp only [childResult, Child.standing, standing, houtcome, hpass, ne_eq,
            not_true_eq_false, decide_false]
          exact ih
        · simp [childResult, Child.standing, standing, houtcome, hpass]

/-! ### Gates -/

def LetsPast (policy : ValidatorErrorPolicy) : Option ValidationStatus → Prop
  | some .pass => True
  | some .abstain => policy = .failOpen
  | some .error => policy = .failOpen
  | some .reject => False
  | none => False

/-- No observer ends the run: what one raises is an `Exception`. -/
def Surroundings.FailOpen (env : Surroundings W) : Prop :=
  ∀ observer ∈ env.observers, ∀ event w typeName,
    (observer.onEvent event w).1 ≠ .error (.baseException typeName)

section Evaluate

variable {d : CompiledGraph S W} {env : Surroundings W} {run : WorkflowRun S W}
  {context : ValidationContext S}

theorem wp_call {α β : Type} {I : WorkflowRun S W → Prop} {f : Callback W α β} {a : α}
    {Q : Except String β → WorkflowRun S W → Prop} {E : WorkflowFailure → WorkflowRun S W → Prop}
    (hI : I { run with world := (f a run.world).2 })
    (h : match (f a run.world).1 with
      | .ok b => Q (.ok b) { run with world := (f a run.world).2 }
      | .error (.exception typeName) => Q (.error typeName) { run with world := (f a run.world).2 }
      | .error (.baseException typeName) =>
        E (.baseException typeName) { run with world := (f a run.world).2 }) :
    wp I (WorkflowM.call f a) Q E run := by
  unfold WorkflowM.call
  rw [wp_bind, wp_get, wp_bind, wp_modify]
  refine ⟨hI, ?_⟩
  split at h
  · next hf => simpa only [hf, wp_pure] using h
  · next hf => simpa only [hf, wp_pure] using h
  · next hf => simpa only [hf, wp_throw] using h

theorem wp_emit (h : env.FailOpen) (eventType : WorkflowEventType) (stage : Option String) :
    wp (fun _ => True) (WorkflowM.emit env eventType stage : WorkflowM S W Unit)
      (fun _ _ => True) (fun _ _ => False) run := by
  unfold WorkflowM.emit
  rw [wp_bind, wp_get, wp_bind, wp_modify]
  refine ⟨trivial, wp_forM _ _ (fun observer hobserver t _ => ?_) trivial⟩
  unfold WorkflowM.notify
  rw [wp_bind]
  refine wp_call trivial ?_
  split
  · exact (wp_pure _).mpr trivial
  · exact (wp_modify _).mpr ⟨trivial, trivial⟩
  · next hf => exact h observer hobserver _ _ _ hf

theorem wp_evaluateOne (h : env.FailOpen) (child : Child S W) :
    wp (fun _ => True) (WorkflowM.evaluateOne d env child.toValidator context)
      (fun record _ => child.standing context = some record.result.status)
      (fun _ _ => child.standing context = none) run := by
  unfold WorkflowM.evaluateOne WorkflowM.invokeValidator
  rw [wp_bind, wp_bind]
  refine wp_call trivial ?_
  rw [child.validate_fst]
  have hemit : ∀ (result : ValidationResult) (run' : WorkflowRun S W),
      child.standing context = some result.status →
      wp (fun _ => True) (WorkflowM.emit env .validationFinished (some context.stage) >>= fun _ =>
          pure ⟨context.phase, child.name, result, context.target, context.candidateState⟩)
        (fun (record : ValidationRecord S) _ => child.standing context = some record.result.status)
        (fun _ _ => child.standing context = none) run' := by
    intro result run' hresult
    rw [wp_bind]
    refine wp_post (wp_emit h _ _) (fun _ t _ => ?_) (fun _ _ hfalse => hfalse.elim)
    exact (wp_pure _).mpr hresult
  cases houtcome : child.outcome context with
  | ok result =>
    cases result with
    | some result =>
      exact (wp_pure _).mpr (hemit _ _ (by rw [Child.standing, houtcome, standing]))
    | none => exact (wp_pure _).mpr (hemit _ _ (by rw [Child.standing, houtcome, standing]))
  | error raised =>
    cases raised with
    | exception typeName =>
      exact (wp_pure _).mpr (hemit _ _ (by rw [Child.standing, houtcome, standing]))
    | baseException typeName => rw [Child.standing, houtcome, standing]

theorem interpret_spec (settings : StateMachineSettings) (result : ValidationResult)
    (records : List (ValidationRecord S)) :
    match interpret settings result records with
    | none => LetsPast settings.validatorErrorPolicy (some result.status)
    | some decision => decision.passed = false ∧
        ¬LetsPast settings.validatorErrorPolicy (some result.status) := by
  unfold interpret
  cases result.status with
  | pass => trivial
  | reject => exact ⟨rfl, id⟩
  | abstain => cases hp : settings.validatorErrorPolicy <;> simp [LetsPast]
  | error => cases hp : settings.validatorErrorPolicy <;> simp [LetsPast]

theorem wp_evaluate (h : env.FailOpen) (children : List (Child S W))
    (records : List (ValidationRecord S)) :
    wp (fun _ => True)
      (WorkflowM.evaluate d env context (children.map Child.toValidator) records)
      (fun decision _ => decision.passed = true ↔
        ∀ child ∈ children, LetsPast d.settings.validatorErrorPolicy (child.standing context))
      (fun _ _ => ¬∀ child ∈ children,
        LetsPast d.settings.validatorErrorPolicy (child.standing context)) run := by
  induction children generalizing records run with
  | nil => exact (wp_pure _).mpr ⟨fun _ child hchild => absurd hchild List.not_mem_nil, fun _ => rfl⟩
  | cons child children ih =>
    rw [List.map_cons, WorkflowM.evaluate, wp_bind]
    refine wp_post (wp_evaluateOne h child) (fun record t hrecord => ?_) (fun _ _ hnone hall => ?_)
    · have hspec := interpret_spec d.settings record.result (records ++ [record])
      rw [← hrecord] at hspec
      cases hdecision : interpret d.settings record.result (records ++ [record]) with
      | some decision =>
        rw [hdecision] at hspec
        refine (wp_pure _).mpr ⟨fun hpassed => ?_, fun hall => ?_⟩
        · rw [hspec.1] at hpassed
          cases hpassed
        · exact absurd (hall child List.mem_cons_self) hspec.2
      | none =>
        rw [hdecision] at hspec
        refine wp_post (ih (records ++ [record])) (fun decision _ hiff => ?_) (fun _ _ hnot hall => ?_)
        · rw [List.forall_mem_cons]
          exact hiff.trans ⟨fun hrest => ⟨hspec, hrest⟩, And.right⟩
        · exact hnot (List.forall_mem_cons.mp hall).2
    · have hpast := hall child List.mem_cons_self
      rw [hnone] at hpast
      exact hpast

def LetsThrough (d : CompiledGraph S W) (env : Surroundings W) (run : WorkflowRun S W)
    (context : ValidationContext S) (gates : List (Validator S W)) : Prop :=
  ∃ decision, (WorkflowM.evaluate d env context gates [] run).result = .ok decision ∧
    decision.passed = true

theorem letsThrough_iff (d : CompiledGraph S W) (run : WorkflowRun S W)
    (context : ValidationContext S) (h : env.FailOpen) (children : List (Child S W)) :
    LetsThrough d env run context (children.map Child.toValidator) ↔
      ∀ child ∈ children, LetsPast d.settings.validatorErrorPolicy (child.standing context) := by
  have hgates : wp (fun _ => True)
      (WorkflowM.evaluate d env context (children.map Child.toValidator) []) _ _ run :=
    wp_evaluate h children []
  obtain ⟨hok, herror⟩ := wp_ends hgates
  constructor
  · rintro ⟨decision, hdecision, hpassed⟩
    exact (hok decision hdecision).mp hpassed
  · intro hall
    cases hresult : (WorkflowM.evaluate d env context (children.map Child.toValidator) [] run).result with
    | ok decision => exact ⟨decision, hresult, (hok decision hresult).mpr hall⟩
    | error e => exact absurd hall (herror e hresult)

/-- A child that does not pass, and does not block a lenient policy, comes before one that does. -/
def Masked (context : ValidationContext S) (children : List (Child S W)) : Prop :=
  ∃ before child after, children = before ++ child :: after ∧
    (∀ c ∈ before, c.standing context = some .pass) ∧
    (child.standing context = some .abstain ∨ child.standing context = some .error) ∧
    ∃ c ∈ after, c.standing context = some .reject ∨ c.standing context = none

theorem masked_iff {children : List (Child S W)} : Masked context children ↔
    ∃ child, firstNonPass context children = some child ∧
      (child.standing context = some .abstain ∨ child.standing context = some .error) ∧
      ∃ c ∈ children, c.standing context = some .reject ∨ c.standing context = none := by
  constructor
  · rintro ⟨before, child, after, rfl, hbefore, hchild, c, hc, hstops⟩
    refine ⟨child, ?_, hchild, c, List.mem_append_right _ (List.mem_cons_of_mem _ hc), hstops⟩
    refine List.find?_eq_some_iff_append.mpr ⟨?_, before, after, rfl, fun c hc => ?_⟩
    · refine decide_eq_true fun hpass => ?_
      rw [hpass] at hchild
      rcases hchild with hchild | hchild <;> cases hchild
    · rw [hbefore c hc]
      rfl
  · rintro ⟨child, hfirst, hchild, c, hc, hstops⟩
    obtain ⟨-, before, after, rfl, hbefore⟩ := List.find?_eq_some_iff_append.mp hfirst
    have hpass : ∀ c ∈ before, c.standing context = some .pass := fun c hc => by
      simpa using hbefore c hc
    refine ⟨before, child, after, rfl, hpass, hchild, c, ?_, hstops⟩
    rcases List.mem_append.mp hc with hc | hc
    · rw [hpass c hc] at hstops
      rcases hstops with hstops | hstops <;> cases hstops
    · rcases List.mem_cons.mp hc with rfl | hc
      · rcases hchild with hchild | hchild <;> rw [hchild] at hstops <;>
          rcases hstops with hstops | hstops <;> cases hstops
      · exact hc

variable {verdict : Option ValidationStatus}

theorem letsPast_failOpen :
    LetsPast .failOpen verdict ↔ ¬(verdict = some .reject ∨ verdict = none) := by
  cases verdict with
  | none => simp [LetsPast]
  | some status => cases status <;> simp [LetsPast]

theorem letsPast_of_ne {policy : ValidatorErrorPolicy}
    (hpolicy : policy ≠ .failOpen) : LetsPast policy verdict ↔ verdict = some .pass := by
  cases verdict with
  | none => simp [LetsPast]
  | some status => cases status <;> simp [LetsPast, hpolicy]

theorem abstain_or_error (hpass : verdict ≠ some .pass)
    (hstops : ¬(verdict = some .reject ∨ verdict = none)) :
    verdict = some .abstain ∨ verdict = some .error := by
  cases verdict with
  | none => exact absurd (.inr rfl) hstops
  | some status =>
    cases status with
    | pass => exact absurd rfl hpass
    | reject => exact absurd (.inl rfl) hstops
    | abstain => exact .inl rfl
    | error => exact .inr rfl

/-- **Grouping gates.** A conjunction lets the candidate through exactly when its children in a row
do, unless the policy is to fail open and a child that would stop the candidate comes after one that
only abstains or errs. -/
theorem allOf_iff_children (h : env.FailOpen) (name : String) (children : List (Child S W)) :
    (LetsThrough d env run context [allOfValidator name (children.map Child.toValidator)] ↔
      LetsThrough d env run context (children.map Child.toValidator)) ↔
    ¬(d.settings.validatorErrorPolicy = .failOpen ∧ Masked context children) := by
  have hgroup : LetsThrough d env run context
      [allOfValidator name (children.map Child.toValidator)] ↔
      LetsPast d.settings.validatorErrorPolicy ((allOf name children).standing context) := by
    have hsingle := letsThrough_iff d run context h [allOf name children]
    rwa [List.forall_mem_singleton] at hsingle
  rw [hgroup, letsThrough_iff d run context h, standing_allOf, masked_iff]
  generalize d.settings.validatorErrorPolicy = policy
  cases hfirst : firstNonPass context children with
  | none =>
    have hpass : ∀ child ∈ children, child.standing context = some .pass := fun child hchild => by
      simpa using List.find?_eq_none.mp hfirst child hchild
    refine iff_of_true ⟨fun _ child hchild => ?_, fun _ => trivial⟩ ?_
    · rw [hpass child hchild]
      trivial
    · rintro ⟨-, child, hsome, -⟩
      cases hsome
  | some child =>
    have hmem : child ∈ children := List.mem_of_find?_eq_some hfirst
    have hne : child.standing context ≠ some .pass := by simpa using List.find?_some hfirst
    by_cases hopen : policy = .failOpen
    · subst hopen
      simp only [letsPast_failOpen, true_and, Option.some.injEq, exists_eq_left']
      by_cases hstops : child.standing context = some .reject ∨ child.standing context = none
      · refine iff_of_true ⟨fun hnot => absurd hstops hnot, fun hall => hall child hmem⟩ ?_
        rintro ⟨hlenient, -⟩
        rcases hlenient with hlenient | hlenient <;> rw [hlenient] at hstops <;>
          rcases hstops with hstops | hstops <;> cases hstops
      · have hlenient := abstain_or_error hne hstops
        constructor
        · rintro hiff ⟨-, c, hc, hcstops⟩
          exact hiff.mp hstops c hc hcstops
        · exact fun hnone => ⟨fun _ c hc hcstops => hnone ⟨hlenient, c, hc, hcstops⟩, fun _ => hstops⟩
    · refine iff_of_true ?_ fun hmasked => hopen hmasked.1
      simp only [letsPast_of_ne hopen]
      exact iff_of_false hne fun hall => hne (hall child hmem)

end Evaluate

/-! ### An abstention that hides a rejection -/

def constantChild (name : String) (status : ValidationStatus) : Child Unit Unit where
  name := name
  validate _ w := (.ok (some ⟨status, name, ""⟩), w)
  outcome _ := .ok (some ⟨status, name, ""⟩)
  validate_fst _ _ := rfl

def oneStage (policy : ValidatorErrorPolicy) : CompiledGraph Unit Unit where
  stateContract := ⟨fun s w => (.ok s, w), fun s w => (.ok s, w)⟩
  stages := [("draft", ⟨fun _ w => (.ok (some ⟨(), "success"⟩), w), [], {}⟩)]
  entry := "draft"
  terminals := [("done", .succeeded)]
  routes := [(("draft", "success"), .direct ⟨"done", []⟩)]
  settings := { validatorErrorPolicy := policy }

def unobserved : Surroundings Unit := ⟨[], fun _ _ w => (none, w)⟩

theorem failOpen_unobserved : unobserved.FailOpen :=
  fun _ h => absurd h List.not_mem_nil

def draftContext : ValidationContext Unit where
  phase := .stage
  stage := "draft"
  stateBefore := ()
  candidateState := ()
  stageResult := ⟨(), "success"⟩
  outcome := "success"
  target := none
  feedback := []

/-- A strict policy reads a group as it reads its children. -/
theorem allOf_iff_children_strict :
    LetsThrough (oneStage .raise) unobserved (.start (oneStage .raise) () ()) draftContext
        [allOfValidator "both" [(constantChild "unsure" .abstain).toValidator,
          (constantChild "no" .reject).toValidator]] ↔
      LetsThrough (oneStage .raise) unobserved (.start (oneStage .raise) () ()) draftContext
        [(constantChild "unsure" .abstain).toValidator, (constantChild "no" .reject).toValidator] :=
  (allOf_iff_children failOpen_unobserved "both"
    [constantChild "unsure" .abstain, constantChild "no" .reject]).mpr fun hmasked => by
      cases hmasked.1

/-- Where the policy is to fail open, the group lets through what its second child rejects. -/
theorem abstention_hides_rejection : ¬∀ (policy : ValidatorErrorPolicy)
    (context : ValidationContext Unit) (children : List (Child Unit Unit)),
    LetsThrough (oneStage policy) unobserved (.start (oneStage policy) () ()) context
        [allOfValidator "all_of" (children.map Child.toValidator)] ↔
      LetsThrough (oneStage policy) unobserved (.start (oneStage policy) () ()) context
        (children.map Child.toValidator) := by
  intro h
  have hboth := h .failOpen draftContext [constantChild "unsure" .abstain, constantChild "no" .reject]
  obtain ⟨decision, hdecision, hpassed⟩ := hboth.mp ⟨_, rfl, rfl⟩
  cases hdecision
  cases hpassed

end VidbyteSdk.Workflows
