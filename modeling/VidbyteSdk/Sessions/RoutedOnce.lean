import VidbyteSdk.Sessions.FailureMetadata

/-!
# One routable failure for a stop

Contracts, tool budgets and the stop reason may each record the stop of a run. What the first two record as
exhausted has the code of the stop (`exhausted_of_routable`), so the stop is recorded by one of the three; what
the other appenders add is not routable.
-/

namespace VidbyteSdk.Sessions.FailureMetadataNormalizer

open VidbyteSdk.Lib
open VidbyteSdk.Agents.Loop (BudgetReason hardBudgetStop)

/-! ### Recording -/

def IgnoresSource (p : NormalizedFailure → Bool) : Prop :=
  ∀ failure : NormalizedFailure, ∀ source id, p { failure with source := source, id := id } = p failure

variable {failure : NormalizedFailure} {newId : ℕ → String}

theorem appendFailures_cons {failures added result : List NormalizedFailure}
    :
    appendFailures newId failures (failure :: added) = some result ↔
      isBlank failure.source = false ∧
        appendFailures newId
          (failures ++ [{ failure with source := strip failure.source, id := newId failures.length }]) added
          = some result := by
  rw [appendFailures, List.foldlM_cons, construct]
  cases isBlank failure.source with
  | true => simp
  | false => simp [appendFailures]

theorem countP_appendFailures {failures added result : List NormalizedFailure}
    (h : appendFailures newId failures added = some result) {p : NormalizedFailure → Bool}
    (hp : IgnoresSource p) : result.countP p = failures.countP p + added.countP p := by
  induction added generalizing failures with
  | nil =>
    rw [appendFailures, List.foldlM_nil] at h
    rw [← Option.some.inj h]
    rfl
  | cons failure added ih =>
    rw [ih (appendFailures_cons.mp h).2, List.countP_append, List.countP_singleton, hp, List.countP_cons]
    omega

def Sourced (failures : List NormalizedFailure) : Prop := ∀ failure ∈ failures, isBlank failure.source = false

theorem sourced_nil : Sourced [] := fun _ hmem => nomatch hmem

theorem sourced_singleton (h : isBlank failure.source = false) : Sourced [failure] := by
  intro other hmem
  rw [List.mem_singleton.mp hmem]
  exact h

theorem Sourced.append {failures others : List NormalizedFailure} (h : Sourced failures) (h' : Sourced others) :
    Sourced (failures ++ others) := by
  intro failure hmem
  rcases List.mem_append.mp hmem with hmem | hmem
  · exact h failure hmem
  · exact h' failure hmem

theorem isSome_appendFailures (newId : ℕ → String) (failures added : List NormalizedFailure) :
    (appendFailures newId failures added).isSome ↔ Sourced added := by
  induction added generalizing failures with
  | nil => simp [appendFailures, Sourced]
  | cons failure added ih =>
    rw [Sourced, List.forall_mem_cons, Option.isSome_iff_exists]
    constructor
    · rintro ⟨result, h⟩
      obtain ⟨hblank, hrest⟩ := appendFailures_cons.mp h
      exact ⟨hblank, (ih _).mp (Option.isSome_iff_exists.mpr ⟨result, hrest⟩)⟩
    · rintro ⟨hblank, hrest⟩
      obtain ⟨result, hresult⟩ := Option.isSome_iff_exists.mp ((ih _).mpr hrest)
      exact ⟨result, appendFailures_cons.mpr ⟨hblank, hresult⟩⟩

/-! ### What can be routed -/

def exhaustedAs (code : FailureCode) (failure : NormalizedFailure) : Bool :=
  failure.code = code ∧ failure.status = .exhausted

theorem routable_ignoresSource : IgnoresSource routable := fun _ _ _ => rfl

theorem exhaustedAs_ignoresSource (code : FailureCode) : IgnoresSource (exhaustedAs code) := fun _ _ _ => rfl

theorem routable_of_exhaustedAs {code : FailureCode}
    (h : exhaustedAs code failure = true) : routable failure = true := by
  rw [exhaustedAs, decide_eq_true_eq] at h
  exact decide_eq_true (Or.inl h.2)

theorem countP_middlewareFailures (metadata : ReplyMetadata) :
    (middlewareFailures metadata).countP routable = 0 := by
  rw [middlewareFailures, List.countP_map, List.countP_eq_zero]
  exact fun _ _ => Bool.false_ne_true

theorem countP_toolContextFailures (metadata : ReplyMetadata) :
    (toolContextFailures metadata).countP routable = 0 := by
  rw [toolContextFailures, List.countP_map, List.countP_eq_zero]
  exact fun _ _ => Bool.false_ne_true

theorem countP_fallbackFailure (metadata : ReplyMetadata) : (fallbackFailure metadata).countP routable = 0 := by
  unfold fallbackFailure
  split
  · rfl
  · split
    · rfl
    · rfl

theorem countP_integrityFailures (metadata : ReplyMetadata) :
    (integrityFailures metadata).countP routable = 0 := by
  have hsession : (sessionFailure metadata).countP routable = 0 := by
    unfold sessionFailure
    split
    · rfl
    · rfl
  have husage : (usageFailure metadata).countP routable = 0 := by
    unfold usageFailure
    split
    · rfl
    · rfl
  rw [integrityFailures, List.countP_append, hsession, husage]

theorem countP_contractFailures (metadata : ReplyMetadata) :
    (contractFailures metadata).countP routable ≤ 1 ∧
      (metadata.stopReason ≠ some "contract_unsatisfied" → (contractFailures metadata).countP routable = 0) := by
  unfold contractFailures
  dsimp only
  split
  · exact ⟨Nat.zero_le 1, fun _ => rfl⟩
  · refine ⟨List.countP_le_length, fun hstop => ?_⟩
    rw [if_neg hstop, if_neg hstop]
    rfl

theorem countP_callAggregate (code : FailureCode) (details : ℕ → FailureDetails) (count : ℕ) :
    (callAggregate code details count).countP routable = 0 := by
  unfold callAggregate
  split
  · rfl
  · rfl

theorem countP_toolFailures (metadata : ReplyMetadata) :
    (toolFailures metadata).countP routable ≤ 1 ∧
      (metadata.toolSettingsBudget = none → (toolFailures metadata).countP routable = 0) := by
  rw [toolFailures, List.countP_append, List.countP_append, countP_callAggregate, countP_callAggregate,
    Nat.zero_add, budgetFailure]
  cases metadata.toolSettingsBudget with
  | none => exact ⟨Nat.zero_le 1, fun _ => rfl⟩
  | some budget => exact ⟨Nat.le_refl 1, fun h => nomatch h⟩

/-! ### The stop -/

def beforeStop (metadata : ReplyMetadata) : List NormalizedFailure :=
  contractFailures metadata ++ toolFailures metadata ++ middlewareFailures metadata

def BudgetIsStop (metadata : ReplyMetadata) : Prop :=
  ∀ budget, metadata.toolSettingsBudget = some budget →
    metadata.stopReason = some budget ∧ budget ≠ "contract_unsatisfied" ∧ (stopCodes.lookup budget).isSome

variable {metadata : ReplyMetadata}

theorem countP_beforeStop (h : BudgetIsStop metadata) :
    (beforeStop metadata).countP routable ≤ 1 := by
  obtain ⟨hcontract, hstopped⟩ := countP_contractFailures metadata
  obtain ⟨htool, hbudget⟩ := countP_toolFailures metadata
  rw [beforeStop, List.countP_append, List.countP_append, countP_middlewareFailures]
  cases hset : metadata.toolSettingsBudget with
  | none =>
    rw [hbudget hset]
    omega
  | some budget =>
    obtain ⟨hstop, hne, _⟩ := h budget hset
    have hother : metadata.stopReason ≠ some "contract_unsatisfied" := by
      rw [hstop]
      exact fun heq => hne (Option.some.inj heq)
    rw [hstopped hother]
    omega

theorem exhausted_of_routable (h : BudgetIsStop metadata) {stopReason : String}
    (hstop : metadata.stopReason = some stopReason)
    (hmem : failure ∈ beforeStop metadata) (hroutable : routable failure = true) :
    exhaustedAs (stopCode stopReason) failure = true := by
  rw [beforeStop, List.mem_append, List.mem_append] at hmem
  rcases hmem with (hmem | hmem) | hmem
  · have hstopped : metadata.stopReason = some "contract_unsatisfied" := by
      by_contra hne
      have hzero := (countP_contractFailures metadata).2 hne
      exact List.countP_eq_zero.mp hzero failure hmem hroutable
    have hreason : stopReason = "contract_unsatisfied" := Option.some.inj (hstop.symm.trans hstopped)
    unfold contractFailures at hmem
    dsimp only at hmem
    split at hmem
    · cases hmem
    · rw [List.mem_singleton.mp hmem, hreason]
      rfl
  · rw [toolFailures, List.mem_append, List.mem_append] at hmem
    rcases hmem with (hmem | hmem) | hmem
    · exact absurd hroutable (List.countP_eq_zero.mp (countP_callAggregate _ _ _) failure hmem)
    · exact absurd hroutable (List.countP_eq_zero.mp (countP_callAggregate _ _ _) failure hmem)
    · unfold budgetFailure at hmem
      split at hmem
      · cases hmem
      · next budget hset =>
        obtain ⟨hbudget, _, hcode⟩ := h budget hset
        have hreason : stopReason = budget := Option.some.inj (hstop.symm.trans hbudget)
        obtain ⟨code, hcode⟩ := Option.isSome_iff_exists.mp hcode
        rw [List.mem_singleton.mp hmem, hreason]
        simp [exhaustedAs, stopCode, hcode]
  · exact absurd hroutable (List.countP_eq_zero.mp (countP_middlewareFailures metadata) failure hmem)

/-- The stops that no handler is given: a normal finish, and the abort of a middleware. -/
def NotRouted (stopReason : AgentStopReason) : Prop :=
  stopReason = .finalResponse ∨ stopReason = .isDone ∨ stopReason = .middlewareAbort

instance (stopReason : AgentStopReason) : Decidable (NotRouted stopReason) :=
  inferInstanceAs (Decidable (_ ∨ _ ∨ _))

theorem value_normal (stopReason : AgentStopReason) :
    (stopReason.value = "final_response" ∨ stopReason.value = "is_done")
      ↔ (stopReason = .finalResponse ∨ stopReason = .isDone) := by
  cases stopReason <;> decide

theorem stopCode_abort (stopReason : AgentStopReason) :
    stopCode stopReason.value = .runtimeMiddlewareAbort ↔ stopReason = .middlewareAbort := by
  cases stopReason <;> decide

theorem countP_stopFailure {stopReason : AgentStopReason}
    (hstop : metadata.stopReason = some stopReason.value) (failures : List NormalizedFailure) :
    (stopFailure failures metadata).countP routable
      = if NotRouted stopReason ∨ 0 < failures.countP (exhaustedAs (stopCode stopReason.value)) then 0 else 1 := by
  have hrecorded : failures.any (exhaustedAs (stopCode stopReason.value)) = true
      ↔ 0 < failures.countP (exhaustedAs (stopCode stopReason.value)) := by
    rw [List.any_eq_true, List.countP_pos_iff]
  have hnotRouted : NotRouted stopReason → ∀ n, (if NotRouted stopReason ∨ 0 < n then 0 else 1) = 0 :=
    fun h _ => if_pos (Or.inl h)
  unfold stopFailure
  rw [hstop]
  dsimp only
  split
  · next hnormal =>
    rw [value_normal] at hnormal
    rw [hnotRouted (hnormal.imp_right Or.inl), List.countP_nil]
  · next hnormal =>
    rw [value_normal] at hnormal
    split
    · next hany =>
      have hold : NotRouted stopReason ∨ 0 < failures.countP (exhaustedAs (stopCode stopReason.value)) :=
        Or.inr (hrecorded.mp hany)
      rw [if_pos hold, List.countP_nil]
    · next hany =>
      split
      · next habort =>
        rw [hnotRouted (Or.inr (Or.inr ((stopCode_abort stopReason).mp habort.1))), List.countP_nil]
      · by_cases hmiddleware : stopReason = .middlewareAbort
        · rw [hnotRouted (Or.inr (Or.inr hmiddleware)), (stopCode_abort stopReason).mpr hmiddleware,
            List.countP_singleton]
          rfl
        · have hcode : stopCode stopReason.value ≠ .runtimeMiddlewareAbort :=
            fun h => hmiddleware ((stopCode_abort stopReason).mp h)
          have hroutes : ¬ (NotRouted stopReason
              ∨ 0 < failures.countP (exhaustedAs (stopCode stopReason.value))) := by
            rintro ((h | h | h) | h)
            · exact hnormal (Or.inl h)
            · exact hnormal (Or.inr h)
            · exact hmiddleware h
            · exact hany (hrecorded.mpr h)
          rw [if_neg hroutes, List.countP_singleton, if_pos hcode, if_pos hcode]
          rfl

/-! ### The whole reply -/

theorem isBlank_agentRuntime : isBlank "agent_runtime" = false := by decide

theorem sourced_contractFailures (metadata : ReplyMetadata) : Sourced (contractFailures metadata) := by
  have hsource : isBlank "output_contract" = false := by decide
  unfold contractFailures
  dsimp only
  split
  · exact sourced_nil
  · exact sourced_singleton hsource

theorem sourced_toolFailures (metadata : ReplyMetadata) : Sourced (toolFailures metadata) := by
  have haggregate : ∀ code details count, Sourced (callAggregate code details count) := by
    intro code details count
    unfold callAggregate
    split
    · exact sourced_nil
    · exact sourced_singleton isBlank_agentRuntime
  have hbudget : Sourced (budgetFailure metadata) := by
    have hsource : isBlank "tool_settings" = false := by decide
    unfold budgetFailure
    split
    · exact sourced_nil
    · exact sourced_singleton hsource
  exact ((haggregate _ _ _).append (haggregate _ _ _)).append hbudget

theorem sourced_middlewareFailures (metadata : ReplyMetadata) :
    Sourced (middlewareFailures metadata) ↔
      ∀ event ∈ metadata.events, event.action = "abort_run" → isBlank event.middlewareName = false := by
  rw [Sourced, middlewareFailures, List.forall_mem_map, List.forall_mem_filter]
  refine forall₂_congr fun event _ => ?_
  rw [decide_eq_true_eq]

theorem sourced_stopFailure (failures : List NormalizedFailure) (metadata : ReplyMetadata) :
    Sourced (stopFailure failures metadata) := by
  unfold stopFailure
  split
  · exact sourced_nil
  · dsimp only
    split
    · exact sourced_nil
    · split
      · exact sourced_nil
      · split
        · exact sourced_nil
        · exact sourced_singleton isBlank_agentRuntime

theorem sourced_toolContextFailures (metadata : ReplyMetadata) : Sourced (toolContextFailures metadata) := by
  have hsource : isBlank "tool_runtime" = false := by decide
  intro failure hmem
  obtain ⟨count, _, rfl⟩ := List.mem_map.mp hmem
  exact hsource

theorem sourced_fallbackFailure (metadata : ReplyMetadata) : Sourced (fallbackFailure metadata) := by
  have hsource : isBlank "agent_fallback" = false := by decide
  unfold fallbackFailure
  split
  · exact sourced_nil
  · split
    · exact sourced_singleton hsource
    · exact sourced_nil

theorem sourced_integrityFailures (metadata : ReplyMetadata) : Sourced (integrityFailures metadata) := by
  have hsession : isBlank "session" = false := by decide
  have husage : isBlank "usage_tracker" = false := by decide
  unfold integrityFailures sessionFailure usageFailure
  refine Sourced.append ?_ ?_
  · split
    · exact sourced_nil
    · exact sourced_singleton hsession
  · split
    · exact sourced_singleton husage
    · exact sourced_nil

variable {failures : List NormalizedFailure}

/-- What `from_reply` has recorded when it drops the duplicates. -/
theorem fromReply_eq_some :
    fromReply newId metadata = some failures ↔
      ∃ contracts tools events stopped contexts fallback recorded,
        appendFailures newId [] (contractFailures metadata) = some contracts ∧
        appendFailures newId contracts (toolFailures metadata) = some tools ∧
        appendFailures newId tools (middlewareFailures metadata) = some events ∧
        appendFailures newId events (stopFailure events metadata) = some stopped ∧
        appendFailures newId stopped (toolContextFailures metadata) = some contexts ∧
        appendFailures newId contexts (fallbackFailure metadata) = some fallback ∧
        appendFailures newId fallback (integrityFailures metadata) = some recorded ∧
        deduplicate recorded = failures := by
  simp only [fromReply, Option.bind_eq_bind, Option.bind_eq_some_iff, Option.pure_def, Option.some.injEq]
  constructor
  · rintro ⟨a, ha, b, hb, c, hc, d, hd, e, he, f, hf, g, hg, h⟩
    exact ⟨a, b, c, d, e, f, g, ha, hb, hc, hd, he, hf, hg, h⟩
  · rintro ⟨a, b, c, d, e, f, g, ha, hb, hc, hd, he, hf, hg, h⟩
    exact ⟨a, ha, b, hb, c, hc, d, hd, e, he, f, hf, g, hg, h⟩

theorem isSome_fromReply (newId : ℕ → String) (metadata : ReplyMetadata) :
    (fromReply newId metadata).isSome ↔
      ∀ event ∈ metadata.events, event.action = "abort_run" → isBlank event.middlewareName = false := by
  rw [← sourced_middlewareFailures]
  have hrecord : ∀ failures added, Sourced added → ∃ result, appendFailures newId failures added = some result :=
    fun failures added h => Option.isSome_iff_exists.mp ((isSome_appendFailures newId failures added).mpr h)
  constructor
  · intro h
    obtain ⟨failures, h⟩ := Option.isSome_iff_exists.mp h
    obtain ⟨_, tools, events, _, _, _, _, _, _, hevents, _⟩ := fromReply_eq_some.mp h
    exact (isSome_appendFailures newId tools _).mp (Option.isSome_iff_exists.mpr ⟨events, hevents⟩)
  · intro h
    obtain ⟨contracts, hcontracts⟩ := hrecord [] _ (sourced_contractFailures metadata)
    obtain ⟨tools, htools⟩ := hrecord contracts _ (sourced_toolFailures metadata)
    obtain ⟨events, hevents⟩ := hrecord tools _ h
    obtain ⟨stopped, hstopped⟩ := hrecord events _ (sourced_stopFailure events metadata)
    obtain ⟨contexts, hcontexts⟩ := hrecord stopped _ (sourced_toolContextFailures metadata)
    obtain ⟨fallback, hfallback⟩ := hrecord contexts _ (sourced_fallbackFailure metadata)
    obtain ⟨recorded, hrecorded⟩ := hrecord fallback _ (sourced_integrityFailures metadata)
    exact Option.isSome_iff_exists.mpr ⟨_, fromReply_eq_some.mpr ⟨_, _, _, _, _, _, _, hcontracts, htools, hevents,
      hstopped, hcontexts, hfallback, hrecorded, rfl⟩⟩

theorem routable_fromReply (hbudget : BudgetIsStop metadata) {stopReason : AgentStopReason}
    (hstop : metadata.stopReason = some stopReason.value) (h : fromReply newId metadata = some failures) :
    failures.countP routable ≤ 1 ∧ (¬ NotRouted stopReason → failures.countP routable = 1) := by
  obtain ⟨contracts, tools, events, stopped, contexts, fallback, recorded, hcontracts, htools, hevents, hstopped,
    hcontexts, hfallback, hrecorded, rfl⟩ := fromReply_eq_some.mp h
  have hbefore : ∀ p, IgnoresSource p → events.countP p = (beforeStop metadata).countP p := by
    intro p hp
    rw [countP_appendFailures hevents hp, countP_appendFailures htools hp, countP_appendFailures hcontracts hp,
      beforeStop, List.countP_append, List.countP_append, List.countP_nil, Nat.zero_add]
  have hle := countP_beforeStop hbudget
  have hsame : (beforeStop metadata).countP (exhaustedAs (stopCode stopReason.value))
      = (beforeStop metadata).countP routable := by
    refine List.countP_congr fun failure hmem => ?_
    exact ⟨routable_of_exhaustedAs, exhausted_of_routable hbudget hstop hmem⟩
  have hstopCount := countP_stopFailure hstop events
  rw [hbefore _ (exhaustedAs_ignoresSource _), hsame] at hstopCount
  have hall : recorded.countP routable
      = (beforeStop metadata).countP routable + (stopFailure events metadata).countP routable := by
    rw [countP_appendFailures hrecorded routable_ignoresSource, countP_appendFailures hfallback routable_ignoresSource,
      countP_appendFailures hcontexts routable_ignoresSource, countP_appendFailures hstopped routable_ignoresSource,
      hbefore _ routable_ignoresSource, countP_integrityFailures, countP_fallbackFailure,
      countP_toolContextFailures, Nat.add_zero]
  have htotal : recorded.countP routable ≤ 1 ∧ (¬ NotRouted stopReason → recorded.countP routable = 1) := by
    rw [hall, hstopCount]
    by_cases hrouted : NotRouted stopReason
    · rw [if_pos (Or.inl hrouted)]
      exact ⟨hle, fun hnot => absurd hrouted hnot⟩
    · by_cases hold : 0 < (beforeStop metadata).countP routable
      · rw [if_pos (Or.inr hold)]
        omega
      · rw [if_neg (not_or.mpr ⟨hrouted, hold⟩)]
        omega
  rw [deduplicate, countP_onePerKey htotal.1]
  exact htotal

theorem nodup_fromReply (h : fromReply newId metadata = some failures) :
    (failures.map fun failure : NormalizedFailure => (failure.code, failure.source)).Nodup := by
  obtain ⟨_, _, _, _, _, _, recorded, _, _, _, _, _, _, _, rfl⟩ := fromReply_eq_some.mp h
  exact nodup_onePerKey recorded

/-! ### Direct runs -/

theorem stopReason_metadata (run : DirectRun) : run.metadata.stopReason = some run.stopReason.value := rfl

theorem budget_stop (reason : BudgetReason) :
    (agentStopReasonForToolBudget (hardBudgetStop.text reason)).value = hardBudgetStop.text reason ∧
      hardBudgetStop.text reason ≠ "contract_unsatisfied" ∧
      (stopCodes.lookup (hardBudgetStop.text reason)).isSome := by
  cases reason <;> decide

theorem budgetIsStop_metadata (run : DirectRun) : BudgetIsStop run.metadata := by
  intro budget h
  rw [stopReason_metadata, DirectRun.stopReason]
  unfold DirectRun.metadata DirectRun.resultMetadata at h
  dsimp only at h
  cases hending : run.finalEnd with
  | stopped stopReason =>
    rw [hending] at h
    cases h
  | aborted =>
    rw [hending] at h
    cases h
  | hardBudget reason =>
    rw [hending] at h
    cases Option.some.inj h
    obtain ⟨hstop, hrest⟩ := budget_stop reason
    exact ⟨congrArg some hstop, hrest⟩

/-- `from_reply` routes the stop of a direct run once. -/
theorem stop_routed_once (newId : ℕ → String) (run : DirectRun) :
    ((fromReply newId run.metadata).isSome ↔
        ∀ event ∈ run.events, event.action = "abort_run" → isBlank event.middlewareName = false) ∧
      ∀ failures, fromReply newId run.metadata = some failures →
        failures.countP routable ≤ 1 ∧
          (¬ NotRouted run.stopReason → failures.countP routable = 1) ∧
          (failures.map fun failure : NormalizedFailure => (failure.code, failure.source)).Nodup := by
  refine ⟨isSome_fromReply newId run.metadata, fun failures h => ?_⟩
  obtain ⟨hmost, hexactly⟩ := routable_fromReply (budgetIsStop_metadata run) (stopReason_metadata run) h
  exact ⟨hmost, hexactly, nodup_fromReply h⟩

/-- A denied call that aborts its run: the aggregate of the denied calls and the stop share their code and
source. -/
def deniedRun : DirectRun where
  ending := .stopped .toolSettingsDenied
  afterRunAborts := false
  iterationCount := 2
  tokensUsed := some 40
  contexts := [⟨.denied, some "tool_settings_denied", none⟩, ⟨.failed, none, some " Timeout "⟩]
  contractEvaluations := [⟨"min_calls", false⟩]
  fallback := none
  events := [⟨"guard", "before_tool_call", "deny_tool", "no"⟩]
  sessionError := none
  recordingCorrupted := false

example : (fromReply toString deniedRun.metadata).map (·.map fun failure => (failure.code, failure.disposition))
    = some [(.contractUnsatisfied, .record), (.toolExecutionFailed, .record), (.toolPermissionDenied, .route),
      (.toolPermissionDenied, .record), (.toolTimeout, .record)] := by decide +kernel

theorem stop_routed_once_denied : ∃ failures, fromReply toString deniedRun.metadata = some failures ∧
    failures.countP routable = 1 := by
  obtain ⟨hreturns, honce⟩ := stop_routed_once toString deniedRun
  have hnames : ∀ event ∈ deniedRun.events, event.action = "abort_run" → isBlank event.middlewareName = false := by
    decide
  obtain ⟨failures, h⟩ := Option.isSome_iff_exists.mp (hreturns.mpr hnames)
  exact ⟨failures, h, (honce failures h).2.1 (by decide)⟩

end VidbyteSdk.Sessions.FailureMetadataNormalizer
