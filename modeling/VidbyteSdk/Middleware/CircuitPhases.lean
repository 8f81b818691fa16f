import Mathlib.Data.List.Nodup
import VidbyteSdk.Middleware.CircuitBreaker

/-!
# Which responses close the circuit

An outcome does not say which call it is of: in the half-open state the first successful response closes
the circuit, also one of a call that was admitted before the circuit opened. The runs here keep, next to the
circuit, the calls in flight with the half-open phase each of them probes. Every response that closes the
circuit is a probe's exactly in the runs where the circuit half opens only when no call is in flight.
-/

namespace VidbyteSdk.Middleware

open Circuit

/-- The circuit, how often it has half opened, and the calls in flight; a call that was admitted as a probe
comes with the phase it probes. -/
structure CallRun where
  circuit : Circuit := {}
  phase : Nat := 0
  inFlight : List (Nat × Option Nat) := []
  deriving DecidableEq

inductive CallEvent where
  | hook (event : Event)
  | ended (call : Nat)
  deriving DecidableEq

namespace CallRun

variable (breaker : CircuitBreaker)

def others (run : CallRun) (call : Nat) : List (Nat × Option Nat) :=
  run.inFlight.filter fun entry => entry.1 ≠ call

def phaseAfter (run : CallRun) (circuit : Circuit) : Nat :=
  if run.circuit.state = .open ∧ circuit.state = .halfOpen then run.phase + 1 else run.phase

def step (run : CallRun) : CallEvent → CallRun
  | .hook (.beforeModelCall call now) =>
    let (decision, circuit) := run.circuit.beforeModelCall breaker now
    let probing := if circuit.state = .halfOpen then some (run.phaseAfter circuit) else none
    { circuit := circuit
      phase := run.phaseAfter circuit
      inFlight := if decision = .continue then run.inFlight ++ [(call, probing)] else run.inFlight }
  | .hook (.afterModelResponse call) =>
    { run with circuit := run.circuit.afterModelResponse, inFlight := run.others call }
  | .hook (.onModelError call now later) =>
    { run with circuit := run.circuit.onModelError breaker now later, inFlight := run.others call }
  | .ended call => { run with inFlight := run.others call }

def steps (run : CallRun) (events : List CallEvent) : CallRun := events.foldl (step breaker) run

/-- A call is admitted once, and has one outcome after it was admitted. -/
def Possible (run : CallRun) : CallEvent → Prop
  | .hook (.beforeModelCall call _) => call ∉ run.inFlight.map Prod.fst
  | .hook (.afterModelResponse call) | .hook (.onModelError call _ _) | .ended call =>
    call ∈ run.inFlight.map Prod.fst

instance (run : CallRun) (event : CallEvent) : Decidable (run.Possible event) :=
  match event with
  | .hook (.beforeModelCall call _) => inferInstanceAs (Decidable (call ∉ _))
  | .hook (.afterModelResponse call) | .hook (.onModelError call _ _) | .ended call =>
    inferInstanceAs (Decidable (call ∈ _))

/-- Every event of the run satisfies `P` where it happens. -/
def Throughout (P : CallRun → CallEvent → Prop) (run : CallRun) : List CallEvent → Prop
  | [] => True
  | event :: events => P run event ∧ Throughout P (run.step breaker event) events

/-- If the event closes a half-open circuit, it is the response of a probe of this half-open phase. -/
def ClosesByProbe (run : CallRun) (event : CallEvent) : Prop :=
  run.circuit.state = .halfOpen → (run.step breaker event).circuit.state = .closed →
    ∃ call, event = .hook (.afterModelResponse call) ∧ (call, some run.phase) ∈ run.inFlight

def HalfOpensQuietly (run : CallRun) (event : CallEvent) : Prop :=
  run.circuit.state = .open → (run.step breaker event).circuit.state = .halfOpen → run.inFlight = []

/-- Whatever may happen next closes the circuit by a probe only. -/
def Safe (run : CallRun) : Prop := ∀ event, run.Possible event → run.ClosesByProbe breaker event

/-! ### Steps -/

variable {breaker} {run : CallRun}

theorem step_before_cases (breaker : CircuitBreaker) (run : CallRun) (call : Nat) (now : ℚ) :
    (run.circuit.state = .closed ∧ run.step breaker (.hook (.beforeModelCall call now)) =
      { run with inFlight := run.inFlight ++ [(call, none)] }) ∨
    run.step breaker (.hook (.beforeModelCall call now)) = run ∨
    ∃ circuit, circuit.state = .halfOpen ∧
      (run.circuit.state = .open ∧ run.step breaker (.hook (.beforeModelCall call now)) =
        ⟨circuit, run.phase + 1, run.inFlight ++ [(call, some (run.phase + 1))]⟩ ∨
      run.circuit.state = .halfOpen ∧ run.step breaker (.hook (.beforeModelCall call now)) =
        ⟨circuit, run.phase, run.inFlight ++ [(call, some run.phase)]⟩) := by
  cases hstate : run.circuit.state with
  | closed => exact .inl ⟨rfl, by simp [step, beforeModelCall, hstate, phaseAfter]⟩
  | «open» =>
    by_cases helapsed : elapsed breaker run.circuit.openedAt now
    · refine .inr (.inr ⟨{ run.circuit with
        state := .halfOpen, halfOpenCalls := 1, halfOpenStartedAt := some now }, rfl, .inl ⟨rfl, ?_⟩⟩)
      simp [step, beforeModelCall, hstate, handleOpenState, helapsed, phaseAfter]
    · exact .inr (.inl (by simp [step, beforeModelCall, hstate, handleOpenState, helapsed, phaseAfter]))
  | halfOpen =>
    by_cases hfull : (breaker.halfOpenMaxCalls : Nat) ≤ run.circuit.halfOpenCalls
    · by_cases helapsed : elapsed breaker run.circuit.halfOpenStartedAt now
      · refine .inr (.inr ⟨{ run.circuit with halfOpenCalls := 1, halfOpenStartedAt := some now },
          hstate, .inr ⟨rfl, ?_⟩⟩)
        simp [step, beforeModelCall, hstate, handleHalfOpenState, hfull, helapsed, phaseAfter]
      · refine .inr (.inl ?_)
        simp [step, beforeModelCall, hstate, handleHalfOpenState, hfull, helapsed, phaseAfter]
    · refine .inr (.inr ⟨{ run.circuit with halfOpenCalls := run.circuit.halfOpenCalls + 1 }, hstate,
        .inr ⟨rfl, ?_⟩⟩)
      simp [step, beforeModelCall, hstate, handleHalfOpenState, hfull, phaseAfter]

theorem state_onModelError (circuit : Circuit) (now later : ℚ) :
    (circuit.onModelError breaker now later).state ≠ .halfOpen ∧
      (circuit.state ≠ .closed → (circuit.onModelError breaker now later).state ≠ .closed) := by
  unfold onModelError
  cases hstate : circuit.state with
  | halfOpen => exact ⟨nofun, fun _ => nofun⟩
  | «open» =>
    simp only [hstate]
    exact ⟨nofun, fun _ => nofun⟩
  | closed =>
    refine ⟨?_, fun h => absurd rfl h⟩
    simp only [recordErrorAndMaybeOpen]
    split
    · exact nofun
    · simp only [hstate]
      exact nofun

theorem state_afterModelResponse (circuit : Circuit) :
    circuit.afterModelResponse.state ≠ .halfOpen := by
  unfold afterModelResponse
  split
  · exact nofun
  · assumption

theorem mem_others {call : Nat} {entry : Nat × Option Nat} (h : entry ∈ run.others call) :
    entry ∈ run.inFlight := (List.mem_filter.mp h).1

/-! ### The calls in flight -/

/-- A call is in flight once, and probes no phase that is still to come. -/
structure Inv (run : CallRun) : Prop where
  calls : (run.inFlight.map Prod.fst).Nodup
  phases : ∀ entry ∈ run.inFlight, ∀ phase ∈ entry.2, phase ≤ run.phase

def Probing (run : CallRun) : Prop :=
  run.circuit.state = .halfOpen → ∀ entry ∈ run.inFlight, entry.2 = some run.phase

theorem Inv.init : Inv {} where
  calls := List.nodup_nil
  phases := fun _ hentry => absurd hentry List.not_mem_nil

theorem Probing.init : Probing {} := nofun

theorem Inv.of_others (h : Inv run) (call : Nat) {circuit : Circuit} :
    Inv { run with circuit := circuit, inFlight := run.others call } where
  calls := h.calls.sublist (List.filter_sublist.map Prod.fst)
  phases := fun entry hentry => h.phases entry (mem_others hentry)

theorem Inv.admit (h : Inv run) {call phase : Nat} {circuit : Circuit} {probing : Option Nat}
    (hcall : call ∉ run.inFlight.map Prod.fst) (hphase : run.phase ≤ phase)
    (hprobing : ∀ p ∈ probing, p ≤ phase) :
    Inv ⟨circuit, phase, run.inFlight ++ [(call, probing)]⟩ := by
  refine ⟨?_, fun entry hentry p hp => ?_⟩
  · rw [List.map_append, List.map_singleton, List.nodup_append_comm]
    exact List.nodup_cons.mpr ⟨hcall, h.calls⟩
  · rcases List.mem_append.mp hentry with hentry | hentry
    · exact (h.phases entry hentry p hp).trans hphase
    · rw [List.mem_singleton.mp hentry] at hp
      exact hprobing p hp

variable {event : CallEvent}

theorem Inv.step (h : Inv run) (hpossible : run.Possible event) :
    Inv (run.step breaker event) := by
  cases event with
  | ended call => exact h.of_others call
  | hook event =>
    cases event with
    | afterModelResponse call => exact h.of_others call
    | onModelError call now later => exact h.of_others call
    | beforeModelCall call now =>
      rcases step_before_cases breaker run call now with
        ⟨-, hstep⟩ | hstep | ⟨circuit, -, ⟨-, hstep⟩ | ⟨-, hstep⟩⟩
      · rw [hstep]
        exact h.admit hpossible le_rfl nofun
      · rw [hstep]
        exact h
      · rw [hstep]
        refine h.admit hpossible (Nat.le_succ _) ?_
        rintro _ ⟨⟩
        exact le_rfl
      · rw [hstep]
        refine h.admit hpossible le_rfl ?_
        rintro _ ⟨⟩
        exact le_rfl

/-- In one state, probes alone can close the circuit exactly when they are all that is in flight. -/
theorem safe_iff_probing (h : Inv run) : Safe breaker run ↔ Probing run := by
  constructor
  · intro hsafe hstate entry hentry
    have hclosed : (run.step breaker (.hook (.afterModelResponse entry.1))).circuit.state = .closed := by
      simp [CallRun.step, afterModelResponse, hstate, transitionToClosed]
    obtain ⟨call, hevent, hprobe⟩ :=
      hsafe (.hook (.afterModelResponse entry.1)) (List.mem_map_of_mem hentry) hstate hclosed
    cases hevent
    rw [List.inj_on_of_nodup_map h.calls hentry hprobe rfl]
  · intro hprobing event hpossible hstate hclosed
    have hhalf : ∀ circuit : Circuit, circuit.state = .halfOpen → circuit.state ≠ .closed := by
      intro circuit hc
      rw [hc]
      exact nofun
    cases event with
    | ended call => exact absurd hclosed (hhalf _ hstate)
    | hook event =>
      cases event with
      | onModelError call now later =>
        exact absurd hclosed ((state_onModelError run.circuit now later).2 (hhalf _ hstate))
      | beforeModelCall call now =>
        rcases step_before_cases breaker run call now with
          ⟨hc, -⟩ | hstep | ⟨circuit, hc, ⟨-, hstep⟩ | ⟨-, hstep⟩⟩
        · exact absurd hc (hhalf _ hstate)
        · rw [hstep] at hclosed
          exact absurd hclosed (hhalf _ hstate)
        · rw [hstep] at hclosed
          exact absurd hclosed (hhalf _ hc)
        · rw [hstep] at hclosed
          exact absurd hclosed (hhalf _ hc)
      | afterModelResponse call =>
        obtain ⟨entry, hentry, rfl⟩ := List.mem_map.mp hpossible
        refine ⟨entry.1, rfl, ?_⟩
        rw [← hprobing hstate entry hentry]
        exact hentry

theorem Probing.step (h : Probing run)
    (hquiet : run.HalfOpensQuietly breaker event) : Probing (run.step breaker event) := by
  cases event with
  | ended call => exact fun hstate entry hentry => h hstate entry (mem_others hentry)
  | hook event =>
    cases event with
    | afterModelResponse call =>
      exact fun hstate => absurd hstate (state_afterModelResponse run.circuit)
    | onModelError call now later =>
      exact fun hstate => absurd hstate (state_onModelError run.circuit now later).1
    | beforeModelCall call now =>
      rcases step_before_cases breaker run call now with
        ⟨hclosed, hstep⟩ | hstep | ⟨circuit, hhalf, ⟨hopen, hstep⟩ | ⟨hstate, hstep⟩⟩
      · rw [hstep]
        exact fun hstate => absurd (hclosed.symm.trans hstate) nofun
      · rw [hstep]
        exact h
      · have hnone := hquiet hopen (by rw [hstep]; exact hhalf)
        rw [hstep, hnone]
        intro _ entry hentry
        rw [List.mem_singleton.mp hentry]
      · rw [hstep]
        intro _ entry hentry
        rcases List.mem_append.mp hentry with hentry | hentry
        · exact h hstate entry hentry
        · rw [List.mem_singleton.mp hentry]

theorem quiet_of_probing (hinv : Inv run)
    (hafter : Probing (run.step breaker event)) : run.HalfOpensQuietly breaker event := by
  intro hopen hhalf
  cases event with
  | ended call => exact absurd (hopen.symm.trans hhalf) nofun
  | hook event =>
    cases event with
    | afterModelResponse call => exact absurd hhalf (state_afterModelResponse run.circuit)
    | onModelError call now later => exact absurd hhalf (state_onModelError run.circuit now later).1
    | beforeModelCall call now =>
      rcases step_before_cases breaker run call now with
        ⟨hclosed, -⟩ | hstep | ⟨circuit, -, ⟨-, hstep⟩ | ⟨hstate, -⟩⟩
      · exact absurd (hclosed.symm.trans hopen) nofun
      · rw [hstep, hopen] at hhalf
        cases hhalf
      · rw [hstep] at hafter hhalf
        rw [List.eq_nil_iff_forall_not_mem]
        intro entry hentry
        have hphase := hafter hhalf entry (List.mem_append_left _ hentry)
        have hle := hinv.phases entry hentry _ hphase
        exact absurd hle (Nat.not_succ_le_self _)
      · exact absurd (hstate.symm.trans hopen) nofun

/-! ### Runs -/

theorem quiet_iff_safe (hinv : Inv run) (hprobing : Probing run) (events : List CallEvent)
    (hpossible : Throughout breaker Possible run events) :
    Throughout breaker (HalfOpensQuietly breaker) run events ↔
      ∀ n, Safe breaker (run.steps breaker (events.take n)) := by
  induction events generalizing run with
  | nil =>
    refine iff_of_true trivial fun n => ?_
    rw [List.take_nil]
    exact (safe_iff_probing hinv).mpr hprobing
  | cons event events ih =>
    have hnext : Inv (run.step breaker event) := hinv.step hpossible.1
    constructor
    · rintro ⟨hquiet, hrest⟩ n
      cases n with
      | zero => exact (safe_iff_probing hinv).mpr hprobing
      | succ n => exact (ih hnext (hprobing.step hquiet) hpossible.2).mp hrest n
    · intro hsafe
      have hafter : Probing (run.step breaker event) :=
        (safe_iff_probing hnext).mp (by simpa [steps] using hsafe 1)
      refine ⟨quiet_of_probing hinv hafter, (ih hnext hafter hpossible.2).mpr fun n => ?_⟩
      exact hsafe (n + 1)

end CallRun

open CallRun

/-- At no moment of a run can anything but a probe of the half-open phase close the circuit, exactly in the
runs where the circuit half opens only while no call is in flight. -/
theorem probes_close_iff (breaker : CircuitBreaker) (events : List CallEvent)
    (hpossible : Throughout breaker Possible {} events) :
    Throughout breaker (HalfOpensQuietly breaker) {} events ↔
      ∀ n, Safe breaker (CallRun.steps breaker {} (events.take n)) :=
  quiet_iff_safe Inv.init Probing.init events hpossible

def oneError : CircuitBreaker where
  failureThreshold := ⟨1, Nat.one_pos⟩
  windowSeconds := 60
  recoveryTimeout := 30
  halfOpenMaxCalls := ⟨1, Nat.one_pos⟩
  windowSeconds_pos := by norm_num
  recoveryTimeout_pos := by norm_num

/-- The circuit opens and half opens with nothing else in flight, and its probe closes it. -/
theorem probes_close_iff_alone :
    Safe oneError (CallRun.steps oneError {} (List.take 4 [.hook (.beforeModelCall 1 0),
      .hook (.onModelError 1 1 1), .hook (.beforeModelCall 2 31), .hook (.afterModelResponse 2)])) := by
  refine (probes_close_iff oneError _ ?_).mp ?_ 4
  · refine ⟨by decide +kernel, by decide +kernel, by decide +kernel, by decide +kernel, trivial⟩
  · refine ⟨nofun, fun h => absurd h (by decide +kernel), fun _ _ => by decide +kernel,
      fun h => absurd h (by decide +kernel), trivial⟩

/-- Two calls are admitted; the second fails and opens the circuit, a probe half opens it, and then the
first call succeeds. -/
theorem late_response_closes : ¬∀ (breaker : CircuitBreaker) (events : List CallEvent),
    Throughout breaker Possible {} events →
      Throughout breaker (ClosesByProbe breaker) {} events := by
  intro h
  have hlast := h oneError [.hook (.beforeModelCall 1 0), .hook (.beforeModelCall 2 0),
    .hook (.onModelError 2 1 1), .hook (.beforeModelCall 3 31), .hook (.afterModelResponse 1)]
    ⟨by decide +kernel, by decide +kernel, by decide +kernel, by decide +kernel, by decide +kernel,
      trivial⟩
  obtain ⟨call, hcall, hprobe⟩ := hlast.2.2.2.2.1 (by decide +kernel) (by decide +kernel)
  cases hcall
  exact absurd hprobe (by decide +kernel)

end VidbyteSdk.Middleware
