import VidbyteSdk.Agents.Loop.Frame

/-!
# Tool budgets

Every budget is recomputed from the one log of tool contexts, each with a filter of its own, and checked
before a call is recorded or, for failures, right after. `WithinBudgets` and `BelowFailures` are what the
checks maintain; `Budgeted` says it of a run, by its `Ledger`, and has one lemma for each way the ledger
grows.
-/

namespace VidbyteSdk.Agents.Loop

open VidbyteSdk.Lib Prog

variable {A T W : Type}

/-! ### What one record does to the counts -/

def Within (limit : Option ℕ+) (n : Nat) : Prop := ∀ l ∈ limit, n ≤ (l : Nat)

/-- The count is below the limit, so that one more respects it. -/
def Below (limit : Option ℕ+) (n : Nat) : Prop := ∀ l ∈ limit, n < (l : Nat)

theorem below_of_reached {limit : Option ℕ+} {n : Nat} (h : reached limit n = false) : Below limit n := by
  intro l hl
  rw [Option.mem_def.mp hl] at h
  simpa [reached] using h

theorem below_zero (limit : Option ℕ+) : Below limit 0 := fun l _ => l.pos

theorem within_zero (limit : Option ℕ+) : Within limit 0 := fun _ _ => Nat.zero_le _

theorem Below.succ_within {limit : Option ℕ+} {n m : Nat} (h : Below limit n) (hm : m ≤ n) :
    Within limit (m + 1) := by
  intro l hl
  have hlt := h l hl
  omega

def developerContexts (contexts : List (ToolCallContext A)) : List (ToolCallContext A) :=
  contexts.filter fun context => !context.internal

/-- Each record has the iteration it was made in, and `isDone` is marked internal. -/
structure Recorded (contexts : List (ToolCallContext A)) (iterationCount : Nat) : Prop where
  iteration : ∀ c ∈ contexts, ∃ i, c.iterationCount = some i ∧ 0 < i ∧ i ≤ iterationCount
  isDone : ∀ c ∈ contexts, c.toolName = isDoneToolName → c.internal = true

/-- The records respect the budgets that are checked before a call. -/
structure WithinBudgets (settings : ToolSettings A) (contexts : List (ToolCallContext A)) : Prop where
  perIteration : ∀ i,
    Within settings.maxCallsPerIteration (callsInIteration (countableContexts contexts) i)
  window : ∀ maxCalls iterations, settings.slidingWindow = some (maxCalls, iterations) → ∀ first,
    callsInWindow (countableContexts contexts) first (first + iterations - 1) ≤ maxCalls
  identical : ∀ fingerprint,
    Within settings.maxIdenticalCalls (identicalCalls settings (countableContexts contexts) fingerprint)
  perTool : ∀ toolName,
    Within (settings.maxCallsPerTool.lookup toolName) (executedCount (developerContexts contexts) toolName)

structure BelowFailures (settings : ToolSettings A) (contexts : List (ToolCallContext A)) : Prop where
  streak : Below settings.maxConsecutiveFailures (failureStreak (countableContexts contexts))
  total : Below settings.maxErrorCalls (failedCalls (countableContexts contexts))

structure Admitted (settings : ToolSettings A) (contexts : List (ToolCallContext A))
    (iterationCount : Nat) (context : ToolCallContext A) : Prop where
  budgetStop_eq : settings.budgetStop context.toolName context.arguments contexts iterationCount = none
  perTool : Below (settings.maxCallsPerTool.lookup context.toolName)
    (executedCount contexts context.toolName)

section

variable {settings : ToolSettings A} {contexts : List (ToolCallContext A)}
  {context : ToolCallContext A} {iterationCount : Nat}

theorem countableContexts_concat_of_excluded (h : isExcludedContext context = true) :
    countableContexts (contexts ++ [context]) = countableContexts contexts := by
  unfold countableContexts
  rw [List.filter_append, List.filter_cons_of_neg (by simp [h]), List.filter_nil, List.append_nil]

theorem countableContexts_concat_of_countable (h : isExcludedContext context = false) :
    countableContexts (contexts ++ [context]) = countableContexts contexts ++ [context] := by
  unfold countableContexts
  rw [List.filter_append, List.filter_cons_of_pos (by simp [h]), List.filter_nil]

theorem orElse_eq_none_iff {β : Type} {x y : Option β} : (x <|> y) = none ↔ x = none ∧ y = none := by
  cases x <;> simp

theorem ite_some_eq_none {β : Type} {c : Bool} {b : β} (h : (if c then some b else none) = none) :
    c = false := by
  cases c
  · rfl
  · cases h

theorem budgetStop_eq_none {toolName : String} {arguments : A}
    (h : settings.budgetStop toolName arguments contexts iterationCount = none) :
    Below settings.maxCallsPerIteration (callsInIteration (countableContexts contexts) iterationCount) ∧
    (∀ maxCalls iterations, settings.slidingWindow = some (maxCalls, iterations) →
      callsInWindow (countableContexts contexts) (max 1 (iterationCount + 1 - iterations)) iterationCount
        < maxCalls) ∧
    Below settings.maxIdenticalCalls (identicalCalls settings (countableContexts contexts)
      (settings.fingerprint toolName arguments)) := by
  unfold ToolSettings.budgetStop at h
  rw [orElse_eq_none_iff, orElse_eq_none_iff] at h
  obtain ⟨hiteration, hwindow, hidentical⟩ := h
  refine ⟨below_of_reached (ite_some_eq_none hiteration), fun maxCalls iterations hsettings => ?_,
    below_of_reached (ite_some_eq_none hidentical)⟩
  unfold ToolSettings.slidingWindowBudgetStop at hwindow
  rw [hsettings] at hwindow
  exact below_of_reached (ite_some_eq_none hwindow) maxCalls rfl

theorem denial_eq_none {toolName : String} {executedCounts : String → Nat}
    (h : settings.denial toolName executedCounts = none) :
    Below (settings.maxCallsPerTool.lookup toolName) (executedCounts toolName) := by
  unfold ToolSettings.denial at h
  split at h
  · cases h
  · exact below_of_reached (ite_some_eq_none h)

theorem failureBudgetStop_eq_none (h : settings.failureBudgetStop contexts = none) :
    BelowFailures settings contexts := by
  unfold ToolSettings.failureBudgetStop at h
  obtain ⟨hstreak, htotal⟩ := orElse_eq_none_iff.mp h
  exact ⟨below_of_reached (ite_some_eq_none hstreak), below_of_reached (ite_some_eq_none htotal)⟩

theorem BelowFailures.nil (settings : ToolSettings A) : BelowFailures settings [] :=
  ⟨below_zero _, below_zero _⟩

theorem counted_of_countable (h : isExcludedContext context = false) :
    context.internal = false ∧ context.state ≠ .denied := by
  unfold isExcludedContext at h
  simp only [Bool.or_eq_false_iff, decide_eq_false_iff_not] at h
  exact ⟨h.2, h.1.1⟩

theorem BelowFailures.concat (h : BelowFailures settings contexts)
    (hstate : context.internal = false → context.state ≠ .failed) :
    BelowFailures settings (contexts ++ [context]) := by
  cases hexcluded : isExcludedContext context with
  | true =>
    refine ⟨?_, ?_⟩
    · rw [countableContexts_concat_of_excluded hexcluded]
      exact h.streak
    · rw [countableContexts_concat_of_excluded hexcluded]
      exact h.total
  | false =>
    have hsucceeded := hstate (counted_of_countable hexcluded).1
    refine ⟨?_, ?_⟩
    · rw [countableContexts_concat_of_countable hexcluded]
      unfold failureStreak
      rw [List.reverse_append, List.reverse_singleton, List.singleton_append,
        List.takeWhile_cons_of_neg (by simpa using hsucceeded)]
      exact below_zero _
    · rw [countableContexts_concat_of_countable hexcluded]
      unfold failedCalls
      rw [List.countP_append, List.countP_singleton, if_neg (by simpa using hsucceeded)]
      exact h.total

theorem WithinBudgets.nil (settings : ToolSettings A) : WithinBudgets settings [] :=
  ⟨fun _ => within_zero _, fun _ _ _ _ => Nat.zero_le _, fun _ => within_zero _, fun _ => within_zero _⟩

theorem mem_of_mem_countable (h : context ∈ countableContexts contexts) : context ∈ contexts :=
  (List.mem_filter.mp h).1

theorem callsInWindow_le (hrecorded : Recorded contexts iterationCount) {first iterations : Nat}
    (hlast : iterationCount ≤ first + iterations - 1) :
    callsInWindow (countableContexts contexts) first (first + iterations - 1)
      ≤ callsInWindow (countableContexts contexts) (max 1 (iterationCount + 1 - iterations))
          iterationCount := by
  apply List.countP_mono_left
  intro c hc hin
  obtain ⟨i, hi, hpositive, hle⟩ := hrecorded.iteration c (mem_of_mem_countable hc)
  simp only [hi, Option.mem_def, Option.some.injEq, exists_eq_left', decide_eq_true_eq] at hin ⊢
  omega

theorem executedCount_developer_le (contexts : List (ToolCallContext A)) (toolName : String) :
    executedCount (developerContexts contexts) toolName ≤ executedCount contexts toolName :=
  List.filter_sublist.countP_le

theorem WithinBudgets.concat (h : WithinBudgets settings contexts)
    (hrecorded : Recorded contexts iterationCount)
    (hiteration : context.iterationCount = some iterationCount)
    (hadmitted : context.internal = false → context.state ≠ .denied →
      Admitted settings contexts iterationCount context) :
    WithinBudgets settings (contexts ++ [context]) := by
  have hperTool : ∀ toolName, Within (settings.maxCallsPerTool.lookup toolName)
      (executedCount (developerContexts (contexts ++ [context])) toolName) := by
    intro toolName
    unfold developerContexts
    rw [List.filter_append]
    cases hinternal : context.internal with
    | true =>
      rw [List.filter_cons_of_neg (by simp [hinternal]), List.filter_nil, List.append_nil]
      exact h.perTool toolName
    | false =>
      rw [List.filter_cons_of_pos (by simp [hinternal]), List.filter_nil]
      unfold executedCount
      rw [List.countP_append, List.countP_singleton]
      by_cases hcounts : context.state ≠ .denied ∧ context.toolName = toolName
      · obtain ⟨hstate, rfl⟩ := hcounts
        rw [if_pos (by simpa using hstate)]
        exact (hadmitted hinternal hstate).perTool.succ_within (executedCount_developer_le _ _)
      · rw [if_neg (by simpa using hcounts)]
        exact h.perTool toolName
  cases hexcluded : isExcludedContext context with
  | true =>
    refine ⟨?_, ?_, ?_, hperTool⟩
    · rw [countableContexts_concat_of_excluded hexcluded]
      exact h.perIteration
    · rw [countableContexts_concat_of_excluded hexcluded]
      exact h.window
    · rw [countableContexts_concat_of_excluded hexcluded]
      exact h.identical
  | false =>
    have hcounted := counted_of_countable hexcluded
    obtain ⟨hbelow, hwindow, hidentical⟩ :=
      budgetStop_eq_none (hadmitted hcounted.1 hcounted.2).budgetStop_eq
    refine ⟨?_, ?_, ?_, hperTool⟩
    · intro i
      rw [countableContexts_concat_of_countable hexcluded]
      unfold callsInIteration
      rw [List.countP_append, List.countP_singleton, hiteration]
      by_cases hi : iterationCount = i
      · subst hi
        rw [if_pos (by simp)]
        exact hbelow.succ_within le_rfl
      · rw [if_neg (by simpa using hi)]
        exact h.perIteration i
    · intro maxCalls iterations hsettings first
      rw [countableContexts_concat_of_countable hexcluded]
      unfold callsInWindow
      rw [List.countP_append, List.countP_singleton, hiteration]
      by_cases hin : first ≤ iterationCount ∧ iterationCount ≤ first + iterations - 1
      · rw [if_pos (by simpa using hin)]
        have hle := callsInWindow_le hrecorded hin.2
        have hlt := hwindow maxCalls iterations hsettings
        unfold callsInWindow at hle hlt
        omega
      · rw [if_neg (by simpa using hin)]
        exact h.window maxCalls iterations hsettings first
    · intro fingerprint
      rw [countableContexts_concat_of_countable hexcluded]
      unfold identicalCalls
      rw [List.countP_append, List.countP_singleton]
      by_cases hsame : settings.fingerprint context.toolName context.arguments = fingerprint
      · subst hsame
        rw [if_pos (by simp)]
        exact hidentical.succ_within le_rfl
      · rw [if_neg (by simpa using hsame)]
        exact h.identical fingerprint

end

/-! ### What the enforcement lets through -/

section

variable {config : RuntimeConfig A} {tools : Catalog A} {call : ToolCall A}
  {contexts : List (ToolCallContext A)} {iterationCount : Nat}

theorem below_callLimit_of_enforcement {e : Enforcement}
    (h : enforcement config tools call contexts iterationCount = e) (he : ∀ stop, e ≠ .stop stop) :
    Below config.callLimit (nonInternalToolContexts tools contexts).length := by
  apply below_of_reached
  by_contra hreached
  have hstop : toolSettingsBudgetStop config tools contexts
      = some ("Agent runtime stopped after reaching max_tool_calls.", .maxToolCalls) := by
    unfold toolSettingsBudgetStop
    rw [if_pos (by simpa using hreached)]
  apply he
  rw [← h]
  unfold enforcement
  rw [hstop]

theorem admitted_of_enforcement (h : enforcement config tools call contexts iterationCount = .allow)
    {settings : ToolSettings A} (hsettings : config.toolSettings = some settings) :
    settings.budgetStop call.toolName call.arguments contexts iterationCount = none ∧
      Below (settings.maxCallsPerTool.lookup call.toolName) (executedCount contexts call.toolName) := by
  unfold enforcement at h
  rw [hsettings] at h
  split at h
  · cases h
  split at h
  · cases h
  rename_i hbudget
  split at h
  · cases h
  rename_i hdenial
  obtain ⟨-, hdenial⟩ := orElse_eq_none_iff.mp hdenial
  exact ⟨hbudget, denial_eq_none hdenial⟩

theorem below_of_failureStop {context : ToolCallContext A} {toolIsInternal : Bool}
    (h : failureStop config context toolIsInternal contexts = none) (hinternal : toolIsInternal = false)
    (hstate : context.state = .failed) :
    ∀ settings ∈ config.toolSettings, BelowFailures settings contexts := by
  intro settings hsettings
  unfold failureStop at h
  rw [if_neg (by simp [hinternal, hstate]), Option.map_eq_none_iff, Option.mem_def.mp hsettings] at h
  exact failureBudgetStop_eq_none h

end

/-! ### The ledger of a run -/

structure Ledger (A : Type) where
  tools : Catalog A
  contexts : List (ToolCallContext A)
  iterationCount : Nat
  resumed : List (List (ToolCallContext A))
  adopted : List (Catalog A)

def MarkedBy (tools : Catalog A) (contexts : List (ToolCallContext A)) : Prop :=
  ∀ c ∈ contexts, c.internal = toolNameIsInternal tools c.toolName

theorem MarkedBy.nonInternal_eq {tools : Catalog A} {contexts : List (ToolCallContext A)}
    (h : MarkedBy tools contexts) :
    nonInternalToolContexts tools contexts = developerContexts contexts := by
  unfold nonInternalToolContexts developerContexts
  refine List.filter_congr fun c hc => ?_
  rw [h c hc]

/-- A run within its budgets. The count of `max_tool_calls` and `max_calls` reads the internal marks
off the current catalog, so it is about runs whose catalogs keep the marks `marks`. -/
structure Budgeted (config : RuntimeConfig A) (marks : String → Bool) (l : Ledger A) : Prop where
  recorded : Recorded l.contexts l.iterationCount
  within : ∀ settings ∈ config.toolSettings, WithinBudgets settings l.contexts
  resumed : ∀ contexts ∈ l.resumed, ∀ settings ∈ config.toolSettings, BelowFailures settings contexts
  total : (∀ tools ∈ l.adopted, tools.markedInternal = marks) → l.tools.markedInternal = marks ∧
    MarkedBy l.tools l.contexts ∧ Within config.callLimit (developerContexts l.contexts).length

structure Proceeding (config : RuntimeConfig A) (marks : String → Bool) (l : Ledger A) : Prop
    extends Budgeted config marks l where
  failures : ∀ settings ∈ config.toolSettings, BelowFailures settings l.contexts

section

variable {config : RuntimeConfig A} {marks : String → Bool} {l : Ledger A}
  {context : ToolCallContext A}

theorem Recorded.concat {contexts : List (ToolCallContext A)} {iterationCount : Nat}
    (h : Recorded contexts iterationCount) (hpos : 0 < iterationCount)
    (hiteration : context.iterationCount = some iterationCount)
    (hisDone : context.toolName = isDoneToolName → context.internal = true) :
    Recorded (contexts ++ [context]) iterationCount := by
  refine ⟨fun c hc => ?_, fun c hc => ?_⟩
  all_goals rcases List.mem_append.mp hc with hc | hc
  · exact h.iteration c hc
  · rw [List.mem_singleton.mp hc]
    exact ⟨iterationCount, hiteration, hpos, le_rfl⟩
  · exact h.isDone c hc
  · rw [List.mem_singleton.mp hc]
    exact hisDone

theorem Recorded.mono {contexts : List (ToolCallContext A)} {n m : Nat} (h : Recorded contexts n)
    (hnm : n ≤ m) : Recorded contexts m := by
  refine ⟨fun c hc => ?_, h.isDone⟩
  obtain ⟨i, hi, hpos, hle⟩ := h.iteration c hc
  exact ⟨i, hi, hpos, hle.trans hnm⟩

/-- A record of the current iteration, marked as the catalog says, whose developer call passed the
enforcement, or was denied by it. -/
structure Settled (config : RuntimeConfig A) (l : Ledger A) (context : ToolCallContext A) : Prop where
  pos : 0 < l.iterationCount
  iterationCount_eq : context.iterationCount = some l.iterationCount
  internal_eq : context.internal = toolNameIsInternal l.tools context.toolName
  below : context.internal = false →
    Below config.callLimit (nonInternalToolContexts l.tools l.contexts).length
  admitted : context.internal = false → context.state ≠ .denied → ∀ settings ∈ config.toolSettings,
    Admitted settings l.contexts l.iterationCount context

theorem Budgeted.concat (h : Budgeted config marks l) (hcontext : Settled config l context) :
    Budgeted config marks { l with contexts := l.contexts ++ [context] } where
  recorded := by
    refine h.recorded.concat hcontext.pos hcontext.iterationCount_eq fun hname => ?_
    rw [hcontext.internal_eq, toolNameIsInternal]
    simp [hname]
  within := fun settings hsettings =>
    (h.within settings hsettings).concat h.recorded hcontext.iterationCount_eq
      fun hinternal hstate => hcontext.admitted hinternal hstate settings hsettings
  resumed := h.resumed
  total := by
    intro hmarks
    obtain ⟨htools, hmarked, htotal⟩ := h.total hmarks
    refine ⟨htools, fun c hc => ?_, ?_⟩
    · rcases List.mem_append.mp hc with hc | hc
      · exact hmarked c hc
      · rw [List.mem_singleton.mp hc]
        exact hcontext.internal_eq
    · show Within config.callLimit (developerContexts (l.contexts ++ [context])).length
      unfold developerContexts at htotal ⊢
      rw [List.filter_append]
      cases hinternal : context.internal with
      | true =>
        rw [List.filter_cons_of_neg (by simp [hinternal]), List.filter_nil, List.append_nil]
        exact htotal
      | false =>
        rw [List.filter_cons_of_pos (by simp [hinternal]), List.filter_nil, List.length_append]
        have hbelow := hcontext.below hinternal
        rw [hmarked.nonInternal_eq] at hbelow
        exact hbelow.succ_within le_rfl

theorem Proceeding.concat (h : Proceeding config marks l) (hcontext : Settled config l context)
    (hstate : context.internal = false → context.state ≠ .failed) :
    Proceeding config marks { l with contexts := l.contexts ++ [context] } :=
  ⟨h.toBudgeted.concat hcontext, fun settings hsettings => (h.failures settings hsettings).concat hstate⟩

theorem Proceeding.resume (h : Proceeding config marks l) :
    Proceeding config marks { l with resumed := l.resumed ++ [l.contexts] } := by
  refine ⟨⟨h.recorded, h.within, fun contexts hcontexts => ?_, h.total⟩, h.failures⟩
  rcases List.mem_append.mp hcontexts with hmem | hmem
  · exact h.resumed contexts hmem
  · rw [List.mem_singleton.mp hmem]
    exact h.failures

theorem Proceeding.count (h : Proceeding config marks l) :
    Proceeding config marks { l with iterationCount := l.iterationCount + 1 } :=
  ⟨⟨h.recorded.mono (Nat.le_succ _), h.within, h.resumed, h.total⟩, h.failures⟩

theorem Proceeding.adopt (h : Proceeding config marks l) (tools : Catalog A) :
    Proceeding config marks { l with tools := tools, adopted := l.adopted ++ [tools] } := by
  refine ⟨⟨h.recorded, h.within, h.resumed, fun hmarks => ?_⟩, h.failures⟩
  obtain ⟨htools, hmarked, htotal⟩ := h.total fun t ht => hmarks t (List.mem_append_left _ ht)
  have hnew : tools.markedInternal = marks := hmarks tools (by simp)
  refine ⟨hnew, fun c hc => ?_, htotal⟩
  rw [hmarked c hc, toolNameIsInternal, toolNameIsInternal, hnew, htools]

end

end VidbyteSdk.Agents.Loop
