import VidbyteSdk.Middleware.ToolErrorPolicy

/-!
# The retry budget of a tool call

A counter is kept under a key that calls may share, so every way a retry loop ends has to release it. A
refusal does not: where a call is refused after it was granted a retry, its counter stays, and the next call
under the key has less of a budget. The total-error limit is a budget of the run: near it a call gets fewer
retries whatever the counters say. A call has its own budget exactly where neither plays a part.
-/

namespace VidbyteSdk.Middleware

open VidbyteSdk.Lib

/-! ### Counters -/

namespace ToolErrorPolicyRunState

variable (state : ToolErrorPolicyRunState)

@[simp] theorem attempts_release (key k : String) :
    (state.release key).attempts k = if k = key then 0 else state.attempts k := by
  unfold attempts release
  simp only [lookup_filter_ne]
  split <;> rfl

@[simp] theorem attempts_setAttempts (key : String) (n : Nat) (k : String) :
    (state.setAttempts key n).attempts k = if k = key then n else state.attempts k := by
  unfold attempts setAttempts
  simp only [lookup_eq_find?, find?_upsert]
  by_cases hk : k = key
  · subst hk
    simp
  · rw [if_neg hk, if_neg (Ne.symm hk)]

@[simp] theorem totalErrors_release (key : String) : (state.release key).totalErrors = state.totalErrors :=
  rfl

@[simp] theorem totalErrors_setAttempts (key : String) (n : Nat) :
    (state.setAttempts key n).totalErrors = state.totalErrors := rfl

end ToolErrorPolicyRunState

/-! ### One hook -/

def ToolErrorPolicy.LimitReached (policy : ToolErrorPolicy) (totalErrors : Nat) : Prop :=
  ∃ limit ∈ policy.maxTotalToolErrors, (limit : Nat) ≤ totalErrors

def Refused (lower : String → String) (result : ToolResult) : Prop :=
  result.status = .error ∧ errorKind lower result ∈ DENIED_ERROR_KINDS

def MayRetry (policy : ToolErrorPolicy) (lower : String → String) (request : ToolRequest)
    (result : ToolResult) : Prop :=
  result.status = .error ∧ policy.mayRetry lower request.permission result = true

section

variable {policy : ToolErrorPolicy} {lower : String → String} {request : ToolRequest}
  {attempt : Nat → ToolResult} {state state' : ToolErrorPolicyRunState}

theorem circuitBreakerTripped_iff :
    policy.circuitBreakerTripped state = true ↔ policy.LimitReached state.totalErrors := by
  unfold ToolErrorPolicy.circuitBreakerTripped ToolErrorPolicy.LimitReached
  cases policy.maxTotalToolErrors with
  | none => simp
  | some limit => simp

theorem MayRetry.not_refused {result : ToolResult} (h : MayRetry policy lower request result) :
    ¬Refused lower result := by
  rintro ⟨-, hdenied⟩
  have hmay := h.2
  simp only [ToolErrorPolicy.mayRetry, Bool.and_eq_true, decide_eq_true_eq] at hmay
  exact hmay.1.1.1.2 hdenied

theorem afterToolCall_cases (policy : ToolErrorPolicy) (lower : String → String) (request : ToolRequest)
    (result : ToolResult) (state : ToolErrorPolicyRunState) :
    let decided := policy.afterToolCall lower request.call request.permission result state
    let key := request.call.callKey
    (Refused lower result ∧ decided.1.action = .continue ∧ decided.2 = state) ∨
    (MayRetry policy lower request result ∧ state.attempts key < policy.maxRetriesPerToolCall ∧
      ¬policy.LimitReached (state.totalErrors + 1) ∧ decided.1.action = .retry ∧
      decided.2 = { state with totalErrors := state.totalErrors + 1 }.setAttempts key
        (state.attempts key + 1)) ∨
    (¬(MayRetry policy lower request result ∧ state.attempts key < policy.maxRetriesPerToolCall ∧
        ¬policy.LimitReached (state.totalErrors + 1)) ∧ ¬Refused lower result ∧
      decided.1.action ≠ .retry ∧ ∃ total, state.totalErrors ≤ total ∧
        decided.2 = { state with totalErrors := total }.release key ∧
        (decided.1.action ≠ .abortRun → total = state.totalErrors ∨ ¬policy.LimitReached total)) := by
  intro decided key
  simp only [decided]
  unfold ToolErrorPolicy.afterToolCall
  by_cases herror : result.status = .error
  · rw [if_neg (not_not.mpr herror)]
    simp only
    by_cases hdenied : errorKind lower result ∈ DENIED_ERROR_KINDS
    · rw [if_pos hdenied]
      exact .inl ⟨⟨herror, hdenied⟩, rfl, rfl⟩
    · rw [if_neg hdenied]
      have hrefused : ¬Refused lower result := fun h => hdenied h.2
      by_cases htripped : policy.LimitReached (state.totalErrors + 1)
      · rw [if_pos (circuitBreakerTripped_iff.mpr htripped)]
        refine .inr (.inr ⟨fun h => h.2.2 htripped, hrefused, nofun, _, Nat.le_succ _, rfl, ?_⟩)
        exact fun h => absurd rfl h
      · rw [if_neg fun h => htripped (circuitBreakerTripped_iff.mp h)]
        by_cases hretry : policy.shouldRetry lower request.call request.permission result
            { state with totalErrors := state.totalErrors + 1 } = true
        · rw [if_pos hretry]
          simp only [ToolErrorPolicy.shouldRetry, Bool.and_eq_true, decide_eq_true_eq] at hretry
          exact .inr (.inl ⟨⟨herror, hretry.1⟩, hretry.2, htripped, rfl, rfl⟩)
        · rw [if_neg hretry]
          have hnot : ¬(MayRetry policy lower request result ∧
              state.attempts key < policy.maxRetriesPerToolCall ∧
              ¬policy.LimitReached (state.totalErrors + 1)) := by
            rintro ⟨hmay, hleft, -⟩
            refine hretry ?_
            simp only [ToolErrorPolicy.shouldRetry, Bool.and_eq_true, decide_eq_true_eq]
            exact ⟨hmay.2, hleft⟩
          split
          · exact .inr (.inr ⟨hnot, hrefused, nofun, _, Nat.le_succ _, rfl, fun h => absurd rfl h⟩)
          · exact .inr (.inr ⟨hnot, hrefused, nofun, _, Nat.le_succ _, rfl, fun _ => .inr htripped⟩)
  · rw [if_pos herror]
    refine .inr (.inr ⟨fun h => herror h.1.1, fun h => herror h.1, nofun, state.totalErrors, le_rfl, rfl,
      fun _ => .inl rfl⟩)

/-! ### The loop -/

/-- From this state the loop is granted its retry number `k`, if it comes to it. -/
def Grants (policy : ToolErrorPolicy) (lower : String → String) (request : ToolRequest)
    (attempt : Nat → ToolResult) (state : ToolErrorPolicyRunState) (k : Nat) : Prop :=
  MayRetry policy lower request (request.result attempt k) ∧
    state.attempts request.call.callKey + k < policy.maxRetriesPerToolCall ∧
    ¬policy.LimitReached (state.totalErrors + k + 1)

/-- The state after `n` retries of a call. -/
structure AfterRetries (key : String) (state : ToolErrorPolicyRunState) (n : Nat)
    (mid : ToolErrorPolicyRunState) : Prop where
  attempts : ∀ k, mid.attempts k = if k = key then state.attempts key + n else state.attempts k
  totalErrors : mid.totalErrors = state.totalErrors + n

/-- The end of the loop on a result: the counter stays where the call is refused, and is released elsewhere. -/
def EndsWith (policy : ToolErrorPolicy) (lower : String → String) (key : String) (result : ToolResult)
    (mid : ToolErrorPolicyRunState) (last : RetryLoopEnd) : Prop :=
  (Refused lower result ∧ last.state = mid) ∨
  (¬Refused lower result ∧ ∃ total, mid.totalErrors ≤ total ∧
    last.state = { mid with totalErrors := total }.release key ∧
    (last.decision.action ≠ .abortRun → total = mid.totalErrors ∨ ¬policy.LimitReached total))

theorem retryLoop_spec (policy : ToolErrorPolicy) (lower : String → String) (request : ToolRequest)
    (attempt : Nat → ToolResult) (fuel pass : Nat) (state : ToolErrorPolicyRunState)
    (hfuel : policy.maxRetriesPerToolCall - state.attempts request.call.callKey < fuel) :
    ∃ n last mid, retryLoop policy lower request attempt fuel pass state = some last ∧
      last.retries = pass + n ∧
      (∀ k < n, Grants policy lower request (fun j => attempt (pass + j)) state k) ∧
      ¬Grants policy lower request (fun j => attempt (pass + j)) state n ∧
      AfterRetries request.call.callKey state n mid ∧
      EndsWith policy lower request.call.callKey (request.result attempt (pass + n)) mid last := by
  have hshift : ∀ (attempt : Nat → ToolResult) (p k : Nat),
      request.result (fun j => attempt (p + j)) k = request.result attempt (p + k) := by
    intro attempt p k
    unfold ToolRequest.result
    cases request.denied <;> rfl
  induction fuel generalizing pass state with
  | zero => exact absurd hfuel (Nat.not_lt_zero _)
  | succ fuel ih =>
    unfold retryLoop
    have hcases := afterToolCall_cases policy lower request (request.result attempt pass) state
    simp only at hcases ⊢
    have hnone : AfterRetries request.call.callKey state 0 state := by
      refine ⟨fun k => ?_, rfl⟩
      split
      next hk => rw [hk, Nat.add_zero]
      · rfl
    rcases hcases with ⟨hrefused, haction, hstate⟩ | ⟨hmay, hleft, hlimit, haction, hstate⟩ |
      ⟨hnot, hrefused, haction, total, hle, hstate, hend⟩
    · rw [if_neg (by rw [haction]; exact nofun)]
      refine ⟨0, _, state, rfl, rfl, fun k hk => absurd hk (Nat.not_lt_zero k), ?_, hnone,
        .inl ⟨hrefused, hstate⟩⟩
      rintro ⟨hmay, -, -⟩
      rw [hshift] at hmay
      exact hmay.not_refused hrefused
    · rw [if_pos haction, hstate]
      obtain ⟨n, last, mid, hlast, hretries, hgranted, hstop, hmid, hends⟩ := ih (pass + 1)
        ({ state with totalErrors := state.totalErrors + 1 }.setAttempts request.call.callKey
          (state.attempts request.call.callKey + 1)) (by
            rw [ToolErrorPolicyRunState.attempts_setAttempts, if_pos rfl]
            omega)
      -- a retry from the next pass on is the following retry from this one
      have hstep : ∀ k, Grants policy lower request (fun j => attempt (pass + 1 + j))
          ({ state with totalErrors := state.totalErrors + 1 }.setAttempts request.call.callKey
            (state.attempts request.call.callKey + 1)) k ↔
          Grants policy lower request (fun j => attempt (pass + j)) state (k + 1) := by
        intro k
        unfold Grants
        rw [hshift, hshift, ToolErrorPolicyRunState.attempts_setAttempts, if_pos rfl,
          ToolErrorPolicyRunState.totalErrors_setAttempts]
        have hpass : pass + 1 + k = pass + (k + 1) := by omega
        have hcount : state.attempts request.call.callKey + 1 + k =
            state.attempts request.call.callKey + (k + 1) := by omega
        have htotal : state.totalErrors + 1 + k + 1 = state.totalErrors + (k + 1) + 1 := by omega
        rw [hpass, hcount, htotal]
      refine ⟨n + 1, last, mid, hlast, by omega, ?_, fun h => hstop ((hstep n).mpr h), ?_, ?_⟩
      · intro k hk
        cases k with
        | zero =>
          refine ⟨?_, hleft, hlimit⟩
          rw [hshift]
          exact hmay
        | succ k => exact (hstep k).mp (hgranted k (by omega))
      · refine ⟨fun k => ?_, ?_⟩
        · rw [hmid.attempts, ToolErrorPolicyRunState.attempts_setAttempts,
            ToolErrorPolicyRunState.attempts_setAttempts, if_pos rfl]
          split
          · omega
          · rfl
        · rw [hmid.totalErrors, ToolErrorPolicyRunState.totalErrors_setAttempts]
          show state.totalErrors + 1 + n = state.totalErrors + (n + 1)
          omega
      · have hpass : pass + 1 + n = pass + (n + 1) := by omega
        rw [← hpass]
        exact hends
    · rw [if_neg haction]
      refine ⟨0, _, state, rfl, rfl, fun k hk => absurd hk (Nat.not_lt_zero k), ?_, hnone,
        .inr ⟨hrefused, total, hle, hstate, hend⟩⟩
      unfold Grants
      rw [hshift]
      exact hnot

theorem processToolCall_spec (policy : ToolErrorPolicy) (lower : String → String) (request : ToolRequest)
    (attempt : Nat → ToolResult) (state : ToolErrorPolicyRunState) :
    ∃ last mid, processToolCall policy lower request attempt state = some last ∧
      (∀ k < last.retries, Grants policy lower request attempt state k) ∧
      ¬Grants policy lower request attempt state last.retries ∧
      AfterRetries request.call.callKey state last.retries mid ∧
      EndsWith policy lower request.call.callKey (request.result attempt last.retries) mid last := by
  obtain ⟨n, last, mid, hlast, hretries, hgranted, hstop, hmid, hends⟩ :=
    retryLoop_spec policy lower request attempt (policy.maxRetriesPerToolCall + 1) 0 state (by omega)
  simp only [Nat.zero_add] at hretries hgranted hstop hends
  subst hretries
  exact ⟨last, mid, hlast, hgranted, hstop, hmid, hends⟩

def retriesOf (policy : ToolErrorPolicy) (lower : String → String) (request : ToolRequest)
    (attempt : Nat → ToolResult) (state : ToolErrorPolicyRunState) : Option Nat :=
  (processToolCall policy lower request attempt state).map RetryLoopEnd.retries

theorem retriesOf_congr (h : ∀ k, Grants policy lower request attempt state k ↔
    Grants policy lower request attempt state' k) :
    retriesOf policy lower request attempt state = retriesOf policy lower request attempt state' := by
  obtain ⟨last, -, hlast, hgranted, hstop, -⟩ :=
    processToolCall_spec policy lower request attempt state
  obtain ⟨last', -, hlast', hgranted', hstop', -⟩ :=
    processToolCall_spec policy lower request attempt state'
  unfold retriesOf
  rw [hlast, hlast', Option.map_some, Option.map_some, Option.some_inj]
  rcases Nat.lt_trichotomy last.retries last'.retries with hlt | heq | hgt
  · exact absurd ((h _).mpr (hgranted' _ hlt)) hstop
  · exact heq
  · exact absurd ((h _).mp (hgranted _ hgt)) hstop'

/-! ### A run -/

/-- What the counters come to between the calls of a run. -/
structure RunInv (policy : ToolErrorPolicy) (state : ToolErrorPolicyRunState) : Prop where
  attempts_le : ∀ key, state.attempts key ≤ state.totalErrors
  limit : ¬policy.LimitReached state.totalErrors

theorem RunInv.start (policy : ToolErrorPolicy) : RunInv policy {} where
  attempts_le := fun _ => le_rfl
  limit := by
    rintro ⟨limit, -, hle⟩
    exact absurd limit.pos (Nat.not_lt.mpr hle)

theorem RunInv.process (h : RunInv policy state) {last : RetryLoopEnd}
    (hlast : processToolCall policy lower request attempt state = some last)
    (haction : last.decision.action ≠ .abortRun) : RunInv policy last.state := by
  obtain ⟨last', mid, hlast', hgranted, -, hmid, hends⟩ :=
    processToolCall_spec policy lower request attempt state
  obtain rfl : last' = last := Option.some_inj.mp (hlast'.symm.trans hlast)
  have hattempts : ∀ key, mid.attempts key ≤ mid.totalErrors := by
    intro key
    rw [hmid.attempts, hmid.totalErrors]
    have hkey := h.attempts_le key
    have hcall := h.attempts_le request.call.callKey
    split <;> omega
  have hlimit : ¬policy.LimitReached mid.totalErrors := by
    rw [hmid.totalErrors]
    cases hn : last'.retries with
    | zero => exact h.limit
    | succ n => exact (hgranted n (by omega)).2.2
  rcases hends with ⟨-, hstate⟩ | ⟨-, total, hle, hstate, htotal⟩
  · rw [hstate]
    exact ⟨hattempts, hlimit⟩
  · rw [hstate]
    refine ⟨fun key => ?_, ?_⟩
    · have hkey : mid.attempts key ≤ total := (hattempts key).trans hle
      rw [ToolErrorPolicyRunState.attempts_release]
      split
      · exact Nat.zero_le _
      · exact hkey
    · rcases htotal haction with htotal | htotal
      · rw [htotal]
        exact hlimit
      · exact htotal

/-- No result that may be retried is followed by a refusal of the call. -/
def NeverRefusedLate (policy : ToolErrorPolicy) (lower : String → String)
    (input : ToolRequest × (Nat → ToolResult)) : Prop :=
  ∀ pass, MayRetry policy lower input.1 (input.1.result input.2 pass) →
    ¬Refused lower (input.1.result input.2 (pass + 1))

theorem attempts_process (hzero : ∀ key, state.attempts key = 0)
    (hclean : NeverRefusedLate policy lower (request, attempt)) {last : RetryLoopEnd}
    (hlast : processToolCall policy lower request attempt state = some last) :
    ∀ key, last.state.attempts key = 0 := by
  obtain ⟨last', mid, hlast', hgranted, -, hmid, hends⟩ :=
    processToolCall_spec policy lower request attempt state
  obtain rfl : last' = last := Option.some_inj.mp (hlast'.symm.trans hlast)
  intro key
  rcases hends with ⟨hrefused, hstate⟩ | ⟨-, total, -, hstate, -⟩
  · have hnone : last'.retries = 0 := by
      cases hn : last'.retries with
      | zero => rfl
      | succ n =>
        rw [hn] at hrefused
        exact absurd hrefused (hclean n (hgranted n (by omega)).1)
    rw [hstate, hmid.attempts, hnone]
    split
    · rw [hzero]
    · exact hzero key
  · have hmidkey : key ≠ request.call.callKey → mid.attempts key = 0 := by
      intro hkey
      rw [hmid.attempts, if_neg hkey]
      exact hzero key
    rw [hstate, ToolErrorPolicyRunState.attempts_release]
    split
    · rfl
    · exact hmidkey ‹_›

theorem processToolCalls_spec {inputs : List (ToolRequest × (Nat → ToolResult))}
    (h : processToolCalls policy lower inputs state = some state') (hinv : RunInv policy state) :
    RunInv policy state' ∧ ((∀ key, state.attempts key = 0) →
      (∀ input ∈ inputs, NeverRefusedLate policy lower input) → ∀ key, state'.attempts key = 0) := by
  induction inputs generalizing state with
  | nil =>
    cases h
    exact ⟨hinv, fun hzero _ => hzero⟩
  | cons input inputs ih =>
    obtain ⟨request, attempt⟩ := input
    unfold processToolCalls at h
    cases hlast : processToolCall policy lower request attempt state with
    | none =>
      rw [hlast] at h
      cases h
    | some last =>
      rw [hlast] at h
      by_cases haction : last.decision.action = .abortRun
      · simp only [if_pos haction] at h
        cases h
      · simp only [if_neg haction] at h
        obtain ⟨hinv', hzero'⟩ := ih h (hinv.process hlast haction)
        refine ⟨hinv', fun hzero hclean => ?_⟩
        exact hzero' (attempts_process hzero (hclean _ List.mem_cons_self) hlast)
          fun other hother => hclean other (List.mem_cons_of_mem _ hother)

/-! ### The budget of one call -/

def Retriable (policy : ToolErrorPolicy) (lower : String → String) (request : ToolRequest) : Prop :=
  ∃ attempt, MayRetry policy lower request (request.result attempt 0)

/-- The total-error limit leaves room for the errors of one more call, or no error was counted. -/
def HasRoom (policy : ToolErrorPolicy) (state : ToolErrorPolicyRunState) : Prop :=
  state.totalErrors = 0 ∨
    ¬policy.LimitReached (state.totalErrors + policy.maxRetriesPerToolCall)

theorem ToolErrorPolicy.LimitReached.mono {m n : Nat} (h : policy.LimitReached m) (hle : m ≤ n) :
    policy.LimitReached n := by
  obtain ⟨limit, hlimit, hm⟩ := h
  exact ⟨limit, hlimit, hm.trans hle⟩

theorem grants_iff_fresh (hcounter : state.attempts request.call.callKey = 0)
    (hroom : HasRoom policy state) (k : Nat) :
    Grants policy lower request attempt state k ↔ Grants policy lower request attempt {} k := by
  unfold Grants
  rw [hcounter]
  refine and_congr_right fun _ => and_congr_right fun hk => not_congr ?_
  rcases hroom with hzero | hroom
  · rw [hzero]
  · have hsmall : ∀ n, n ≤ state.totalErrors + policy.maxRetriesPerToolCall → ¬policy.LimitReached n :=
      fun n hn h => hroom (h.mono hn)
    exact iff_of_false (hsmall _ (by omega)) (hsmall _ (by simp only; omega))

theorem fresh_of_retriesOf (hinv : RunInv policy state) (hretriable : Retriable policy lower request)
    (h : ∀ attempt, retriesOf policy lower request attempt state =
      retriesOf policy lower request attempt {}) :
    state.attempts request.call.callKey = 0 ∧ HasRoom policy state := by
  obtain ⟨sample, hsample⟩ := hretriable
  let attempt : Nat → ToolResult := fun _ => sample 0
  have hmay : ∀ k, MayRetry policy lower request (request.result attempt k) := by
    intro k
    have hsame : request.result attempt k = request.result sample 0 := by
      unfold ToolRequest.result
      cases request.denied <;> rfl
    rw [hsame]
    exact hsample
  obtain ⟨last, -, hlast, hgranted, -, -⟩ := processToolCall_spec policy lower request attempt state
  obtain ⟨fresh, -, hfresh, -, hstop, -⟩ := processToolCall_spec policy lower request attempt {}
  have hequal : last.retries = fresh.retries := by
    have hcount := h attempt
    unfold retriesOf at hcount
    rw [hlast, hfresh] at hcount
    exact Option.some_inj.mp hcount
  have hcalled := hinv.attempts_le request.call.callKey
  by_cases hzero : state.totalErrors = 0
  · exact ⟨by omega, .inl hzero⟩
  -- the fresh run stops at its budget: had the limit stopped it, this run would have stopped before
  have hbudget : policy.maxRetriesPerToolCall ≤ fresh.retries := by
    by_contra hlt
    have hreached : policy.LimitReached (fresh.retries + 1) := by
      by_contra hnot
      refine hstop ⟨hmay _, ?_, ?_⟩
      · show 0 + fresh.retries < _
        omega
      · show ¬policy.LimitReached (0 + fresh.retries + 1)
        rw [Nat.zero_add]
        exact hnot
    cases hn : fresh.retries with
    | zero =>
      rw [hn] at hreached
      exact hinv.limit (hreached.mono (by omega))
    | succ n =>
      rw [hn] at hreached
      exact (hgranted n (by omega)).2.2 (hreached.mono (by omega))
  have hpos : 0 < policy.maxRetriesPerToolCall := by
    have hfirst := (hmay 0).2
    simp only [ToolErrorPolicy.mayRetry, Bool.and_eq_true, decide_eq_true_eq] at hfirst
    exact hfirst.1.1.1.1
  obtain ⟨-, hleft, hlimit⟩ := hgranted (policy.maxRetriesPerToolCall - 1) (by omega)
  refine ⟨by omega, .inr ?_⟩
  have hlast_error : state.totalErrors + (policy.maxRetriesPerToolCall - 1) + 1 =
      state.totalErrors + policy.maxRetriesPerToolCall := by omega
  rw [← hlast_error]
  exact hlimit

end

/-- After any calls of a run, a call is executed at most once more than it may be retried, and again only
after a result that may be retried. Whatever its results are, it gets the retries of a fresh run exactly
where none of its results may be retried, or no counter is left under its key and the total-error limit
leaves room for it; and no counter is left where no earlier call was refused after a result that may be
retried. -/
theorem own_retry_budget_iff (policy : ToolErrorPolicy) (lower : String → String)
    (inputs : List (ToolRequest × (Nat → ToolResult))) (state : ToolErrorPolicyRunState)
    (hrun : processToolCalls policy lower inputs {} = some state) (request : ToolRequest) :
    (∀ attempt, ∃ last, processToolCall policy lower request attempt state = some last ∧
      last.executions request ≤ 1 + policy.maxRetriesPerToolCall ∧
      ∀ k < last.retries, MayRetry policy lower request (request.result attempt k)) ∧
    ((∀ attempt, retriesOf policy lower request attempt state =
        retriesOf policy lower request attempt {}) ↔
      (Retriable policy lower request →
        state.attempts request.call.callKey = 0 ∧ HasRoom policy state)) ∧
    ((∀ input ∈ inputs, NeverRefusedLate policy lower input) →
      state.attempts request.call.callKey = 0) := by
  obtain ⟨hinv, hclean⟩ := processToolCalls_spec hrun (RunInv.start policy)
  refine ⟨fun attempt => ?_, ⟨fun h hretriable => fresh_of_retriesOf hinv hretriable h, fun h attempt => ?_⟩,
    fun hinputs => hclean (fun _ => rfl) hinputs _⟩
  · obtain ⟨last, -, hlast, hgranted, -, -⟩ := processToolCall_spec policy lower request attempt state
    refine ⟨last, hlast, ?_, fun k hk => (hgranted k hk).1⟩
    have hretries : last.retries ≤ policy.maxRetriesPerToolCall := by
      cases hn : last.retries with
      | zero => exact Nat.zero_le _
      | succ n =>
        have hleft := (hgranted n (by omega)).2.1
        omega
    unfold RetryLoopEnd.executions
    split <;> omega
  · refine retriesOf_congr fun k => ?_
    by_cases hretriable : Retriable policy lower request
    · obtain ⟨hcounter, hroom⟩ := h hretriable
      exact grants_iff_fresh hcounter hroom k
    · have hnone : ¬MayRetry policy lower request (request.result attempt k) := by
        intro hmay
        refine hretriable ⟨fun _ => attempt k, ?_⟩
        have hsame : request.result (fun _ => attempt k) 0 = request.result attempt k := by
          unfold ToolRequest.result
          cases request.denied <;> rfl
        rw [hsame]
        exact hmay
      exact iff_of_false (fun hgrant => hnone hgrant.1) fun hgrant => hnone hgrant.1

section

/-- `str.lower` of ASCII text. -/
def asciiLower (text : String) : String := String.ofList (text.toList.map Char.toLower)

def oneRetry : ToolErrorPolicy where
  maxRetriesPerToolCall := 1

def searchRequest : ToolRequest where
  call := { toolName := "search", arguments := "{}", callId := some "c1" }
  permission := some .safe

def timedOut : ToolResult := { status := .error, error := some "timeout" }

def timedOutThenRefused (pass : Nat) : ToolResult :=
  if pass = 0 then timedOut else { status := .error, error := some "permission_denied" }

/-- A call that times out and then succeeds leaves the next call under its id a budget of its own. -/
theorem own_retry_budget_iff_search :
    retriesOf oneRetry asciiLower searchRequest (fun _ => timedOut) ⟨[], 1⟩ =
      retriesOf oneRetry asciiLower searchRequest (fun _ => timedOut) {} := by
  have hrun : processToolCalls oneRetry asciiLower
      [(searchRequest, fun pass => if pass = 0 then timedOut else { status := .success })] {} =
        some ⟨[], 1⟩ := rfl
  refine (own_retry_budget_iff oneRetry asciiLower _ _ hrun searchRequest).2.1.mpr
    (fun _ => ⟨rfl, .inr ?_⟩) _
  rintro ⟨limit, hlimit, -⟩
  cases hlimit

/-- The call is refused after its retry; the next call under its id is not retried any more. -/
theorem refused_call_starves : ¬∀ (policy : ToolErrorPolicy) (lower : String → String)
    (inputs : List (ToolRequest × (Nat → ToolResult))) (state : ToolErrorPolicyRunState),
    processToolCalls policy lower inputs {} = some state → ∀ request attempt,
      retriesOf policy lower request attempt state =
        retriesOf policy lower request attempt {} := by
  intro h
  have hrun : processToolCalls oneRetry asciiLower [(searchRequest, timedOutThenRefused)] {} =
      some ⟨[("c1", 1)], 1⟩ := rfl
  have hstarved : retriesOf oneRetry asciiLower searchRequest (fun _ => timedOut) ⟨[("c1", 1)], 1⟩ =
      some 0 := rfl
  have hfresh : retriesOf oneRetry asciiLower searchRequest (fun _ => timedOut) {} = some 1 := rfl
  have hequal := h oneRetry asciiLower _ _ hrun searchRequest fun _ => timedOut
  rw [hstarved, hfresh] at hequal
  cases hequal

end

end VidbyteSdk.Middleware
