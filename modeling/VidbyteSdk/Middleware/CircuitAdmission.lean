import VidbyteSdk.Middleware.CircuitBreaker

/-!
# What the circuit breaker admits

Opening, waiting and leaving the closed state go by the clock alone, and some call is always admitted once
the recovery timeout has passed. The bound on the probes needs more: a full window restarts its count
when it is `recovery_timeout` old, however young the last of its probes is. It holds in the runs where a
window restarts only after all its probes are that old, and in every run only for a single probe.
-/

namespace VidbyteSdk.Middleware

open Circuit

namespace BreakerRun

variable (breaker : CircuitBreaker)

def errorsInWindow (errors : List ℚ) (now : ℚ) : Nat :=
  errors.countP fun t => now - t < breaker.windowSeconds

def outstanding (probes : List (Nat × ℚ)) (now : ℚ) : List (Nat × ℚ) :=
  probes.filter fun probe => now - probe.2 < breaker.recoveryTimeout

def NextEvent (run : BreakerRun) (event : Event) : Prop := Ordered run.clock [event]

structure Admission (run : BreakerRun) : Prop where
  waits : run.circuit.state = .open → ∀ now, run.decision breaker now = .continue →
    breaker.recoveryTimeout ≤ now - run.openedAt
  probes : run.circuit.state = .halfOpen → ∀ now, run.clock ≤ now →
    (outstanding breaker run.probes now).length ≤ (breaker.halfOpenMaxCalls : Nat)
  leaves : run.circuit.state = .closed → ∀ event, run.NextEvent event →
    ((run.step breaker event).circuit.state ≠ .closed ↔ ∃ call now later,
      event = .onModelError call now later ∧
        (breaker.failureThreshold : Nat) ≤ errorsInWindow breaker (run.errors ++ [now]) now)
  unwedged : ∀ now, run.clock + breaker.recoveryTimeout ≤ now → run.decision breaker now = .continue

/-! ### The invariant -/

/-- What the fields of the circuit say of the run. -/
structure Inv (run : BreakerRun) : Prop where
  admitted : ∀ probe ∈ run.probes, probe.2 ≤ run.clock
  closed : run.circuit.state = .closed → ∃ cut, cut ≤ run.clock - breaker.windowSeconds ∧
    run.circuit.errorTimestamps = run.errors.filter fun t => cut < t
  opened : run.circuit.state = .open → run.circuit.openedAt = some run.openedAt ∧
    run.openedAt ≤ run.clock ∧ ∀ probe ∈ run.probes, probe.2 ≤ run.openedAt
  halfOpen : run.circuit.state = .halfOpen → ∃ start, run.circuit.halfOpenStartedAt = some start ∧
    start ≤ run.clock ∧ 0 < run.circuit.halfOpenCalls ∧
    run.circuit.halfOpenCalls ≤ (breaker.halfOpenMaxCalls : Nat) ∧
    (run.circuit.halfOpenCalls = 1 → ∀ probe ∈ run.probes, probe.2 ≤ start)

/-- The probes of the window since it started, which the count of half-open calls covers; those from
before are at least `recovery_timeout` old. -/
def Covered (run : BreakerRun) : Prop :=
  run.circuit.state = .halfOpen → ∀ start, run.circuit.halfOpenStartedAt = some start →
    (∀ probe ∈ run.probes, probe.2 < start → breaker.recoveryTimeout ≤ start - probe.2) ∧
    (run.probes.filter fun probe => start ≤ probe.2).length ≤ run.circuit.halfOpenCalls

variable {breaker} {run : BreakerRun}

theorem elapsed_some {start now : ℚ} :
    elapsed breaker (some start) now = true ↔ breaker.recoveryTimeout ≤ now - start := by
  simp [elapsed]

variable {call : Nat}

theorem mem_unresolved {probe : Nat × ℚ} (h : probe ∈ run.unresolved call) :
    probe ∈ run.probes :=
  (List.mem_filter.mp h).1

theorem prune_filter (errors : List ℚ) {cut now : ℚ} (hcut : cut ≤ now - breaker.windowSeconds) :
    pruneErrorWindow breaker (errors.filter (fun t => cut < t) ++ [now]) now
      = (errors ++ [now]).filter fun t => now - breaker.windowSeconds < t := by
  unfold pruneErrorWindow
  rw [List.filter_append, List.filter_append, List.filter_filter]
  congr 1
  refine List.filter_congr fun t _ => ?_
  by_cases ht : now - breaker.windowSeconds < t
  · simp [ht, lt_of_le_of_lt hcut ht]
  · simp [ht]

theorem length_filter_window (errors : List ℚ) (now : ℚ) :
    (errors.filter fun t => now - breaker.windowSeconds < t).length
      = errorsInWindow breaker errors now := by
  unfold errorsInWindow
  rw [← List.countP_eq_length_filter]
  refine List.countP_congr fun t _ => ?_
  simp only [decide_eq_true_eq]
  constructor <;> intro h <;> linarith

/-! ### Steps -/

theorem Inv.init (clock : ℚ) : Inv breaker { clock := clock } where
  admitted := fun _ hprobe => absurd hprobe List.not_mem_nil
  closed := fun _ => ⟨clock - breaker.windowSeconds, le_rfl, rfl⟩
  opened := nofun
  halfOpen := nofun

variable {probes : List (Nat × ℚ)}

theorem le_of_mem_concat {now bound : ℚ} (hnow : now ≤ bound)
    (h : ∀ probe ∈ probes, probe.2 ≤ bound) : ∀ probe ∈ probes ++ [(call, now)], probe.2 ≤ bound := by
  intro probe hprobe
  rcases List.mem_append.mp hprobe with hprobe | hprobe
  · exact h probe hprobe
  · rw [List.mem_singleton.mp hprobe]
    exact hnow

variable {now : ℚ}

theorem step_opens (call : Nat) (hstate : run.circuit.state = .open)
    (helapsed : elapsed breaker run.circuit.openedAt now = true) :
    run.step breaker (.beforeModelCall call now) = { run with
      circuit :=
        { run.circuit with state := .halfOpen, halfOpenCalls := 1, halfOpenStartedAt := some now }
      clock := now
      probes := run.probes ++ [(call, now)] } := by
  simp [step, beforeModelCall, hstate, handleOpenState, helapsed]

theorem step_restarts (call : Nat) (hstate : run.circuit.state = .halfOpen)
    (hfull : (breaker.halfOpenMaxCalls : Nat) ≤ run.circuit.halfOpenCalls)
    (helapsed : elapsed breaker run.circuit.halfOpenStartedAt now = true) :
    run.step breaker (.beforeModelCall call now) = { run with
      circuit := { run.circuit with halfOpenCalls := 1, halfOpenStartedAt := some now }
      clock := now
      probes := run.probes ++ [(call, now)] } := by
  simp [step, beforeModelCall, hstate, handleHalfOpenState, hfull, helapsed]

theorem step_probes (call : Nat) (now : ℚ) (hstate : run.circuit.state = .halfOpen)
    (hroom : run.circuit.halfOpenCalls < (breaker.halfOpenMaxCalls : Nat)) :
    run.step breaker (.beforeModelCall call now) = { run with
      circuit := { run.circuit with halfOpenCalls := run.circuit.halfOpenCalls + 1 }
      clock := now
      probes := run.probes ++ [(call, now)] } := by
  simp [step, beforeModelCall, hstate, handleHalfOpenState, Nat.not_le.mpr hroom]

theorem step_before_cases (breaker : CircuitBreaker) (run : BreakerRun) (call : Nat) (now : ℚ) :
    run.step breaker (.beforeModelCall call now) = { run with clock := now } ∨
    (run.circuit.state = .open ∧ elapsed breaker run.circuit.openedAt now = true) ∨
    (run.circuit.state = .halfOpen ∧ (breaker.halfOpenMaxCalls : Nat) ≤ run.circuit.halfOpenCalls ∧
      elapsed breaker run.circuit.halfOpenStartedAt now = true) ∨
    (run.circuit.state = .halfOpen ∧ run.circuit.halfOpenCalls < (breaker.halfOpenMaxCalls : Nat)) := by
  cases hstate : run.circuit.state with
  | closed => exact .inl (by simp [step, beforeModelCall, hstate])
  | «open» =>
    by_cases helapsed : elapsed breaker run.circuit.openedAt now
    · exact .inr (.inl ⟨rfl, helapsed⟩)
    · exact .inl (by simp [step, beforeModelCall, hstate, handleOpenState, helapsed])
  | halfOpen =>
    by_cases hfull : (breaker.halfOpenMaxCalls : Nat) ≤ run.circuit.halfOpenCalls
    · by_cases helapsed : elapsed breaker run.circuit.halfOpenStartedAt now
      · exact .inr (.inr (.inl ⟨rfl, hfull, helapsed⟩))
      · exact .inl (by simp [step, beforeModelCall, hstate, handleHalfOpenState, hfull, helapsed])
    · exact .inr (.inr (.inr ⟨rfl, Nat.lt_of_not_le hfull⟩))

theorem Inv.before (h : Inv breaker run) (hnow : run.clock ≤ now) :
    Inv breaker (run.step breaker (.beforeModelCall call now)) := by
  have hadmitted : ∀ probe ∈ run.probes, probe.2 ≤ now := fun probe hprobe =>
    (h.admitted probe hprobe).trans hnow
  rcases step_before_cases breaker run call now with
    hstep | ⟨hstate, helapsed⟩ | ⟨hstate, hfull, helapsed⟩ | ⟨hstate, hroom⟩
  · rw [hstep]
    refine ⟨hadmitted, fun hstate => ?_, fun hstate => ?_, fun hstate => ?_⟩
    · obtain ⟨cut, hcut, hstored⟩ := h.closed hstate
      exact ⟨cut, by linarith, hstored⟩
    · obtain ⟨hopened, hle, hprobes⟩ := h.opened hstate
      exact ⟨hopened, hle.trans hnow, hprobes⟩
    · obtain ⟨start, hstart, hle, hrest⟩ := h.halfOpen hstate
      exact ⟨start, hstart, hle.trans hnow, hrest⟩
  · rw [step_opens _ hstate helapsed]
    refine ⟨le_of_mem_concat le_rfl hadmitted, nofun, nofun, fun _ => ?_⟩
    exact ⟨now, rfl, le_rfl, Nat.one_pos, breaker.halfOpenMaxCalls.pos, fun _ =>
      le_of_mem_concat le_rfl hadmitted⟩
  · rw [step_restarts _ hstate hfull helapsed]
    refine ⟨le_of_mem_concat le_rfl hadmitted, fun hne => ?_, fun hne => ?_, fun _ => ?_⟩
    · exact absurd (hne.symm.trans hstate) (by simp)
    · exact absurd (hne.symm.trans hstate) (by simp)
    · exact ⟨now, rfl, le_rfl, Nat.one_pos, breaker.halfOpenMaxCalls.pos, fun _ =>
        le_of_mem_concat le_rfl hadmitted⟩
  · obtain ⟨start, hstart, hle, hpos, -, -⟩ := h.halfOpen hstate
    rw [step_probes _ _ hstate hroom]
    refine ⟨le_of_mem_concat le_rfl hadmitted, fun hne => ?_, fun hne => ?_, fun _ => ?_⟩
    · exact absurd (hne.symm.trans hstate) (by simp)
    · exact absurd (hne.symm.trans hstate) (by simp)
    · refine ⟨start, hstart, hle.trans hnow, Nat.succ_pos _, hroom, fun hone => ?_⟩
      -- a second probe of the window: the count is past one
      simp only at hone
      omega

theorem Inv.after (h : Inv breaker run) (call : Nat) :
    Inv breaker (run.step breaker (.afterModelResponse call)) := by
  have hadmitted : ∀ probe ∈ run.unresolved call, probe.2 ≤ run.clock := fun probe hprobe =>
    h.admitted probe (mem_unresolved hprobe)
  by_cases hstate : run.circuit.state = .halfOpen
  · have hstep : run.step breaker (.afterModelResponse call) = { run with
        circuit := run.circuit.transitionToClosed
        errors := []
        probes := run.unresolved call } := by
      simp [step, afterModelResponse, hstate]
    rw [hstep]
    refine ⟨hadmitted, fun _ => ⟨_, le_rfl, rfl⟩, nofun, nofun⟩
  · have hstep : run.step breaker (.afterModelResponse call)
        = { run with probes := run.unresolved call } := by
      simp [step, afterModelResponse, hstate]
    rw [hstep]
    refine ⟨hadmitted, h.closed, fun hopen => ?_, fun hhalf => absurd hhalf hstate⟩
    obtain ⟨hopened, hle, hprobes⟩ := h.opened hopen
    exact ⟨hopened, hle, fun probe hprobe => hprobes probe (mem_unresolved hprobe)⟩

theorem recordError_state (h : Inv breaker run) (hstate : run.circuit.state = .closed)
    (hnow : run.clock ≤ now) (later : ℚ) :
    run.circuit.onModelError breaker now later =
      if (breaker.failureThreshold : Nat) ≤ errorsInWindow breaker (run.errors ++ [now]) now then
        { run.circuit with
          state := .open
          errorTimestamps := (run.errors ++ [now]).filter fun t => now - breaker.windowSeconds < t
          openedAt := some later
          halfOpenStartedAt := none }
      else { run.circuit with
        errorTimestamps := (run.errors ++ [now]).filter fun t => now - breaker.windowSeconds < t } := by
  obtain ⟨cut, hcut, hstored⟩ := h.closed hstate
  have hwindow : cut ≤ now - breaker.windowSeconds := by linarith
  have hpruned := prune_filter run.errors hwindow
  rw [← hstored] at hpruned
  simp only [onModelError, hstate, recordErrorAndMaybeOpen, hpruned, length_filter_window]
  rfl

theorem Inv.error (h : Inv breaker run) {now later : ℚ} (hnow : run.clock ≤ now)
    (hlater : now ≤ later) : Inv breaker (run.step breaker (.onModelError call now later)) := by
  have hadmitted : ∀ probe ∈ run.unresolved call, probe.2 ≤ later := fun probe hprobe =>
    (h.admitted probe (mem_unresolved hprobe)).trans (hnow.trans hlater)
  cases hstate : run.circuit.state with
  | closed =>
    have herror := recordError_state h hstate hnow later
    by_cases hfull : (breaker.failureThreshold : Nat) ≤ errorsInWindow breaker (run.errors ++ [now]) now
    · rw [if_pos hfull] at herror
      simp only [step, herror, hstate]
      exact ⟨hadmitted, nofun, fun _ => ⟨rfl, le_rfl, hadmitted⟩,
        nofun⟩
    · rw [if_neg hfull] at herror
      simp only [step, herror, hstate]
      refine ⟨hadmitted, fun _ => ⟨now - breaker.windowSeconds, by simp; linarith, rfl⟩,
        nofun, nofun⟩
  | «open» =>
    obtain ⟨hopened, hle, hprobes⟩ := h.opened hstate
    simp only [step, onModelError, hstate]
    refine ⟨hadmitted, fun hne => ?_, fun _ => ?_, fun hne => ?_⟩
    · exact absurd (hne.symm.trans hstate) (by simp)
    · exact ⟨hopened, hle.trans (hnow.trans hlater), fun probe hprobe =>
        hprobes probe (mem_unresolved hprobe)⟩
    · exact absurd (hne.symm.trans hstate) (by simp)
  | halfOpen =>
    simp only [step, onModelError, hstate, transitionToOpen]
    exact ⟨hadmitted, nofun, fun _ => ⟨rfl, le_rfl, hadmitted⟩,
      nofun⟩

/-! ### The probes of a window -/

/-- A full window is restarted by the event. -/
def Restarts (breaker : CircuitBreaker) (run : BreakerRun) (now : ℚ) : Prop :=
  run.circuit.state = .halfOpen ∧ (breaker.halfOpenMaxCalls : Nat) ≤ run.circuit.halfOpenCalls ∧
    elapsed breaker run.circuit.halfOpenStartedAt now = true

/-- If the event restarts a full window, every probe left is at least `recovery_timeout` old. -/
def Fresh (breaker : CircuitBreaker) (run : BreakerRun) : Event → Prop
  | .beforeModelCall _ now =>
    Restarts breaker run now → ∀ probe ∈ run.probes, breaker.recoveryTimeout ≤ now - probe.2
  | .afterModelResponse _ | .onModelError _ _ _ => True

def FreshRun (breaker : CircuitBreaker) (run : BreakerRun) : List Event → Prop
  | [] => True
  | event :: events => Fresh breaker run event ∧ FreshRun breaker (run.step breaker event) events

theorem covered_of_start (hold : ∀ probe ∈ probes, breaker.recoveryTimeout ≤ now - probe.2) :
    (∀ probe ∈ probes ++ [(call, now)], probe.2 < now → breaker.recoveryTimeout ≤ now - probe.2) ∧
      ((probes ++ [(call, now)]).filter fun probe => now ≤ probe.2).length ≤ 1 := by
  have htimeout := breaker.recoveryTimeout_pos
  constructor
  · intro probe hprobe hlt
    rcases List.mem_append.mp hprobe with hprobe | hprobe
    · exact hold probe hprobe
    · rw [List.mem_singleton.mp hprobe] at hlt
      exact absurd hlt (lt_irrefl now)
  · have hnone : probes.filter (fun probe => now ≤ probe.2) = [] := by
      apply List.filter_eq_nil_iff.mpr
      intro probe hprobe hle
      have hage := hold probe hprobe
      rw [decide_eq_true_eq] at hle
      linarith
    rw [List.filter_append, hnone]
    exact List.length_filter_le _ _

variable {event : Event}

theorem Covered.step (h : Covered breaker run) (hinv : Inv breaker run)
    (hordered : run.NextEvent event) (hfresh : Fresh breaker run event) :
    Covered breaker (run.step breaker event) := by
  cases event with
  | beforeModelCall call now =>
    obtain ⟨hnow, -⟩ := hordered
    rcases step_before_cases breaker run call now with
      hstep | ⟨hstate, helapsed⟩ | ⟨hstate, hfull, helapsed⟩ | ⟨hstate, hroom⟩
    · rw [hstep]
      exact h
    · -- the circuit was open for the timeout, so every probe is older than it
      rw [step_opens _ hstate helapsed]
      obtain ⟨hopened, -, hprobes⟩ := hinv.opened hstate
      rw [hopened, elapsed_some] at helapsed
      intro _ start hstart
      obtain rfl : now = start := Option.some.inj hstart
      refine covered_of_start fun probe hprobe => ?_
      have hle := hprobes probe hprobe
      linarith
    · rw [step_restarts _ hstate hfull helapsed]
      intro _ start hstart
      obtain rfl : now = start := Option.some.inj hstart
      exact covered_of_start (hfresh ⟨hstate, hfull, helapsed⟩)
    · rw [step_probes _ _ hstate hroom]
      intro _ start hstart
      obtain ⟨hold, hcount⟩ := h hstate start hstart
      obtain ⟨start', hstart', hle, -⟩ := hinv.halfOpen hstate
      obtain rfl : start' = start := Option.some.inj (hstart'.symm.trans hstart)
      refine ⟨fun probe hprobe hlt => ?_, ?_⟩
      · rcases List.mem_append.mp hprobe with hprobe | hprobe
        · exact hold probe hprobe hlt
        · rw [List.mem_singleton.mp hprobe] at hlt
          exact absurd (hle.trans hnow) (not_le.mpr hlt)
      · rw [List.filter_append, List.length_append]
        have hlast : ([(call, now)].filter fun probe => start' ≤ probe.2).length ≤ 1 :=
          List.length_filter_le _ _
        simp only
        omega
  | afterModelResponse call =>
    intro hstate
    by_cases hhalf : run.circuit.state = .halfOpen
    · simp [BreakerRun.step, afterModelResponse, hhalf, transitionToClosed] at hstate
    · simp [BreakerRun.step, afterModelResponse, hhalf] at hstate
  | onModelError call now later =>
    intro hstate
    cases hcase : run.circuit.state with
    | closed =>
      have herror := recordError_state hinv hcase hordered.1 later
      simp only [BreakerRun.step, herror] at hstate
      split at hstate
      · cases hstate
      · exact absurd (hstate.symm.trans hcase) (by simp)
    | «open» => simp [BreakerRun.step, onModelError, hcase] at hstate
    | halfOpen => simp [BreakerRun.step, onModelError, hcase, transitionToOpen] at hstate

/-! ### Admission -/

theorem outstanding_le (hinv : Inv breaker run) (h : Covered breaker run)
    (hstate : run.circuit.state = .halfOpen) (hnow : run.clock ≤ now) :
    (outstanding breaker run.probes now).length ≤ (breaker.halfOpenMaxCalls : Nat) := by
  obtain ⟨start, hstart, hle, -, hmax, -⟩ := hinv.halfOpen hstate
  obtain ⟨hold, hcount⟩ := h hstate start hstart
  have hsub : (outstanding breaker run.probes now).length
      ≤ (run.probes.filter fun probe => start ≤ probe.2).length := by
    unfold outstanding
    rw [← List.countP_eq_length_filter, ← List.countP_eq_length_filter]
    refine List.countP_mono_left fun probe hprobe hyoung => ?_
    simp only [decide_eq_true_eq] at hyoung ⊢
    by_contra hlt
    have hage := hold probe hprobe (not_le.mp hlt)
    linarith
  omega

theorem state_step_ne_closed (hinv : Inv breaker run) (hstate : run.circuit.state = .closed)
    (hordered : run.NextEvent event) :
    (run.step breaker event).circuit.state ≠ .closed ↔ ∃ call now later,
      event = .onModelError call now later ∧
        (breaker.failureThreshold : Nat) ≤ errorsInWindow breaker (run.errors ++ [now]) now := by
  cases event with
  | beforeModelCall call now => simp [step, beforeModelCall, hstate]
  | afterModelResponse call => simp [step, afterModelResponse, hstate]
  | onModelError call now later =>
    have herror := recordError_state hinv hstate hordered.1 later
    simp only [step, herror]
    split
    case isTrue hfull => exact iff_of_true nofun ⟨call, now, later, rfl, hfull⟩
    case isFalse hfull =>
      refine iff_of_false (by simp [hstate]) ?_
      rintro ⟨call', now', later', heq, hfull'⟩
      cases heq
      exact hfull hfull'

theorem Inv.admission (hinv : Inv breaker run)
    (hprobes : run.circuit.state = .halfOpen → ∀ now, run.clock ≤ now →
      (outstanding breaker run.probes now).length ≤ (breaker.halfOpenMaxCalls : Nat)) :
    Admission breaker run where
  waits := by
    intro hstate now hdecision
    obtain ⟨hopened, -, -⟩ := hinv.opened hstate
    by_contra hwait
    have helapsed : elapsed breaker run.circuit.openedAt now = false := by
      rw [hopened, ← Bool.not_eq_true, elapsed_some]
      exact hwait
    simp [decision, beforeModelCall, hstate, handleOpenState, helapsed] at hdecision
  probes := hprobes
  leaves := fun hstate _ hordered => state_step_ne_closed hinv hstate hordered
  unwedged := by
    intro now hnow
    cases hstate : run.circuit.state with
    | closed => simp [decision, beforeModelCall, hstate]
    | «open» =>
      obtain ⟨hopened, hle, -⟩ := hinv.opened hstate
      have helapsed : elapsed breaker run.circuit.openedAt now = true := by
        rw [hopened, elapsed_some]
        linarith
      simp [decision, beforeModelCall, hstate, handleOpenState, helapsed]
    | halfOpen =>
      obtain ⟨start, hstart, hle, -⟩ := hinv.halfOpen hstate
      have helapsed : elapsed breaker run.circuit.halfOpenStartedAt now = true := by
        rw [hstart, elapsed_some]
        linarith
      by_cases hfull : (breaker.halfOpenMaxCalls : Nat) ≤ run.circuit.halfOpenCalls
      · simp [decision, beforeModelCall, hstate, handleHalfOpenState, hfull, helapsed]
      · simp [decision, beforeModelCall, hstate, handleHalfOpenState, hfull]

theorem Inv.step (h : Inv breaker run) (hordered : run.NextEvent event) :
    Inv breaker (run.step breaker event) := by
  cases event with
  | beforeModelCall call now => exact h.before hordered.1
  | afterModelResponse call => exact h.after call
  | onModelError call now later => exact h.error hordered.1 hordered.2.1

variable {events : List Event}

theorem ordered_step (breaker : CircuitBreaker)
    (h : Ordered run.clock (event :: events)) :
    run.NextEvent event ∧ Ordered (run.step breaker event).clock events := by
  cases event with
  | beforeModelCall call now =>
    refine ⟨⟨h.1, trivial⟩, ?_⟩
    simp only [step]
    exact h.2
  | afterModelResponse call =>
    refine ⟨trivial, ?_⟩
    simp only [step]
    exact h
  | onModelError call now later =>
    refine ⟨⟨h.1, h.2.1, trivial⟩, ?_⟩
    simp only [step]
    exact h.2.2

theorem Inv.steps (h : Inv breaker run) (hordered : Ordered run.clock events) :
    Inv breaker (run.steps breaker events) := by
  induction events generalizing run with
  | nil => exact h
  | cons event events ih =>
    obtain ⟨hnext, hrest⟩ := ordered_step breaker hordered
    exact ih (h.step hnext) hrest

theorem Covered.steps (h : Covered breaker run) (hinv : Inv breaker run)
    (hordered : Ordered run.clock events) (hfresh : FreshRun breaker run events) :
    Covered breaker (run.steps breaker events) := by
  induction events generalizing run with
  | nil => exact h
  | cons event events ih =>
    obtain ⟨hnext, hrest⟩ := ordered_step breaker hordered
    exact ih (h.step hinv hnext hfresh.1) (hinv.step hnext) hrest hfresh.2

theorem freshRun_of_one (hone : breaker.halfOpenMaxCalls = 1) (hinv : Inv breaker run)
    (hordered : Ordered run.clock events) : FreshRun breaker run events := by
  induction events generalizing run with
  | nil => trivial
  | cons event events ih =>
    obtain ⟨hnext, hrest⟩ := ordered_step breaker hordered
    refine ⟨?_, ih (hinv.step hnext) hrest⟩
    cases event with
    | afterModelResponse call => trivial
    | onModelError call now later => trivial
    | beforeModelCall call now =>
      rintro ⟨hstate, -, helapsed⟩ probe hprobe
      obtain ⟨start, hstart, -, hpos, hmax, hfirst⟩ := hinv.halfOpen hstate
      rw [hone, PNat.one_coe] at hmax
      rw [hstart, elapsed_some] at helapsed
      have hle := hfirst (by omega) probe hprobe
      linarith

/-! ### A window that restarts too early -/

inductive Reached (breaker : CircuitBreaker) : BreakerRun → Prop where
  | start : Reached breaker { clock := 0 }
  | step {run : BreakerRun} {event : Event} : Reached breaker run → run.NextEvent event →
      Reached breaker (run.step breaker event)

theorem ordered_concat (h : Ordered run.clock events)
    (hnext : (run.steps breaker events).NextEvent event) : Ordered run.clock (events ++ [event]) := by
  induction events generalizing run with
  | nil => exact hnext
  | cons first events ih =>
    have hrest := (ordered_step breaker h).2
    have happend := ih hrest hnext
    cases first with
    | beforeModelCall call now =>
      simp only [BreakerRun.step] at happend
      exact ⟨h.1, happend⟩
    | afterModelResponse call =>
      simp only [BreakerRun.step] at happend
      exact happend
    | onModelError call now later =>
      simp only [BreakerRun.step] at happend
      exact ⟨h.1, h.2.1, happend⟩

theorem Reached.exists_events (h : Reached breaker run) :
    ∃ events, Ordered 0 events ∧ run = BreakerRun.steps breaker { clock := 0 } events := by
  induction h with
  | start => exact ⟨[], trivial, rfl⟩
  | @step run event _ hnext ih =>
    obtain ⟨events, hordered, rfl⟩ := ih
    refine ⟨events ++ [event], ordered_concat hordered hnext, ?_⟩
    unfold steps
    rw [List.foldl_append]
    rfl

theorem Reached.inv (h : Reached breaker run) : Inv breaker run := by
  induction h with
  | start => exact Inv.init 0
  | step _ hnext ih => exact ih.step hnext

theorem outstanding_concat (now : ℚ) :
    (outstanding breaker (probes ++ [(call, now)]) now).length
      = (outstanding breaker probes now).length + 1 := by
  have hyoung : now - now < breaker.recoveryTimeout := by
    rw [sub_self]
    exact breaker.recoveryTimeout_pos
  unfold outstanding
  rw [List.filter_append, List.length_append, List.filter_cons_of_pos (by simpa using hyoung)]
  rfl

theorem exists_failing (breaker : CircuitBreaker) (k : Nat) (hk : k < (breaker.failureThreshold : Nat)) : ∃ run,
    Reached breaker run ∧ run.circuit.state = .closed ∧ run.errors = List.replicate k 0 ∧
      run.clock = 0 := by
  induction k with
  | zero => exact ⟨_, .start, rfl, rfl, rfl⟩
  | succ k ih =>
    obtain ⟨run, hreached, hstate, herrors, hclock⟩ := ih (Nat.lt_of_succ_lt hk)
    have hnext : run.NextEvent (.onModelError 0 0 0) := ⟨hclock.le, le_rfl, trivial⟩
    have herror := recordError_state hreached.inv hstate hclock.le 0
    have hcount : errorsInWindow breaker (run.errors ++ [0]) 0 = k + 1 := by
      rw [herrors, ← List.replicate_succ', errorsInWindow, List.countP_replicate,
        if_pos (by simpa using breaker.windowSeconds_pos)]
    rw [hcount, if_neg (Nat.not_le.mpr hk)] at herror
    refine ⟨_, hreached.step hnext, ?_, ?_, rfl⟩
    · simp only [step, herror]
      exact hstate
    · simp only [step]
      rw [herrors, List.replicate_succ']

theorem exists_open (breaker : CircuitBreaker) : ∃ run, Reached breaker run ∧ run.circuit.state = .open ∧
    run.circuit.openedAt = some 0 ∧ run.clock = 0 := by
  obtain ⟨k, hk⟩ : ∃ k, (breaker.failureThreshold : Nat) = k + 1 :=
    Nat.exists_eq_succ_of_ne_zero breaker.failureThreshold.ne_zero
  obtain ⟨run, hreached, hstate, herrors, hclock⟩ := exists_failing breaker k (by omega)
  have hnext : run.NextEvent (.onModelError 0 0 0) := ⟨hclock.le, le_rfl, trivial⟩
  have herror := recordError_state hreached.inv hstate hclock.le 0
  have hcount : errorsInWindow breaker (run.errors ++ [0]) 0 = k + 1 := by
    rw [herrors, ← List.replicate_succ', errorsInWindow, List.countP_replicate,
      if_pos (by simpa using breaker.windowSeconds_pos)]
  rw [hcount, if_pos hk.le] at herror
  refine ⟨_, hreached.step hnext, ?_, ?_, rfl⟩
  · simp only [step, herror]
  · simp only [step, herror]

/-- A window with `k` probes of its last moment. -/
theorem exists_filled (breaker : CircuitBreaker) (k : Nat) (hk : k < (breaker.halfOpenMaxCalls : Nat)) : ∃ run,
    Reached breaker run ∧ run.circuit.state = .halfOpen ∧ run.circuit.halfOpenCalls = k + 1 ∧
      run.circuit.halfOpenStartedAt = some breaker.recoveryTimeout ∧
      run.clock ≤ breaker.recoveryTimeout + breaker.recoveryTimeout ∧
      k ≤ (outstanding breaker run.probes (breaker.recoveryTimeout + breaker.recoveryTimeout)).length := by
  have htimeout := breaker.recoveryTimeout_pos
  induction k with
  | zero =>
    obtain ⟨run, hreached, hstate, hsince, hclock⟩ := exists_open breaker
    have hnext : run.NextEvent (.beforeModelCall 0 breaker.recoveryTimeout) :=
      ⟨by rw [hclock]; exact htimeout.le, trivial⟩
    have helapsed : elapsed breaker run.circuit.openedAt breaker.recoveryTimeout = true := by
      rw [hsince, elapsed_some, sub_zero]
    have hopens := step_opens 0 hstate helapsed
    refine ⟨_, hreached.step hnext, ?_⟩
    rw [hopens]
    exact ⟨rfl, rfl, rfl, by simp only; linarith, Nat.zero_le _⟩
  | succ k ih =>
    obtain ⟨run, hreached, hstate, hcalls, hstarted, hclock, hcount⟩ := ih (Nat.lt_of_succ_lt hk)
    have hnext : run.NextEvent (.beforeModelCall 0 (breaker.recoveryTimeout + breaker.recoveryTimeout)) :=
      ⟨hclock, trivial⟩
    have hroom : run.circuit.halfOpenCalls < (breaker.halfOpenMaxCalls : Nat) := by omega
    refine ⟨_, hreached.step hnext, ?_⟩
    rw [step_probes _ _ hstate hroom, outstanding_concat]
    exact ⟨hstate, by simp only; omega, hstarted, le_rfl, by omega⟩

/-- With two or more probes allowed, one run has more outstanding: the second and later ones arrive when
the first expires, and the window then restarts its count. -/
theorem exists_overfull (htwo : 1 < (breaker.halfOpenMaxCalls : Nat)) :
    ∃ run, Reached breaker run ∧ ¬Admission breaker run := by
  obtain ⟨m, hm⟩ : ∃ m, (breaker.halfOpenMaxCalls : Nat) = m + 1 :=
    Nat.exists_eq_succ_of_ne_zero breaker.halfOpenMaxCalls.ne_zero
  obtain ⟨run, hreached, hstate, hcalls, hstarted, hclock, hcount⟩ :=
    exists_filled breaker m (by omega)
  have helapsed : elapsed breaker run.circuit.halfOpenStartedAt
      (breaker.recoveryTimeout + breaker.recoveryTimeout) = true := by
    rw [hstarted, elapsed_some, add_sub_cancel_right]
  have hrestart := step_restarts 0 hstate (by omega) helapsed
  have hrestarted := hreached.step (show run.NextEvent (.beforeModelCall 0 _) from ⟨hclock, trivial⟩)
  have hrestarted_state : (run.step breaker (.beforeModelCall 0
      (breaker.recoveryTimeout + breaker.recoveryTimeout))).circuit.state = .halfOpen := by
    rw [hrestart]
    exact hstate
  have hrestarted_calls : (run.step breaker (.beforeModelCall 0
      (breaker.recoveryTimeout + breaker.recoveryTimeout))).circuit.halfOpenCalls
        < (breaker.halfOpenMaxCalls : Nat) := by
    rw [hrestart]
    exact htwo
  have hrefill := step_probes 1 (breaker.recoveryTimeout + breaker.recoveryTimeout) hrestarted_state
    hrestarted_calls
  refine ⟨_, hrestarted.step (show NextEvent _ (.beforeModelCall 1 (breaker.recoveryTimeout +
    breaker.recoveryTimeout)) from ⟨by rw [hrestart], trivial⟩), fun hadmission => ?_⟩
  rw [hrefill, hrestart] at hadmission
  have hbound := hadmission.probes hstate _ le_rfl
  rw [outstanding_concat, outstanding_concat] at hbound
  omega

end BreakerRun

open BreakerRun

/-- **Admission.** In every state of every run, an open circuit admits nothing before its recovery
timeout, the circuit leaves the closed state exactly when the errors of the window reach the threshold,
and some call is admitted once the timeout has passed. The probes outstanding stay within
`half_open_max_calls` too in the runs whose full windows restart only when all their probes are past the
timeout, and in all runs exactly when one probe is allowed. -/
theorem admission_iff (breaker : CircuitBreaker) :
    (∀ clock events, Ordered clock events → FreshRun breaker { clock := clock } events →
      Admission breaker (BreakerRun.steps breaker { clock := clock } events)) ∧
    ((∀ clock events, Ordered clock events →
      Admission breaker (BreakerRun.steps breaker { clock := clock } events)) ↔
        breaker.halfOpenMaxCalls = 1) := by
  have hfresh : ∀ clock events, Ordered clock events → FreshRun breaker { clock := clock } events →
      Admission breaker (BreakerRun.steps breaker { clock := clock } events) := by
    intro clock events hordered hfresh
    have hinv : Inv breaker { clock := clock } := Inv.init clock
    have hcovered : Covered breaker { clock := clock } := nofun
    have hend := hinv.steps hordered
    exact hend.admission fun hstate _ hnow =>
      outstanding_le hend (hcovered.steps hinv hordered hfresh) hstate hnow
  refine ⟨hfresh, ?_, ?_⟩
  · intro hall
    by_contra hone
    have hpos := breaker.halfOpenMaxCalls.pos
    have htwo : 1 < (breaker.halfOpenMaxCalls : Nat) := by
      rcases Nat.lt_or_ge 1 (breaker.halfOpenMaxCalls : Nat) with hlt | hle
      · exact hlt
      · exact absurd (PNat.coe_injective (by rw [PNat.one_coe]; omega)) hone
    obtain ⟨run, hreached, hadmission⟩ := exists_overfull htwo
    obtain ⟨events, hordered, rfl⟩ := hreached.exists_events
    exact hadmission (hall 0 events hordered)
  · intro hone clock events hordered
    exact hfresh clock events hordered (freshRun_of_one hone (Inv.init clock) hordered)

/-- Two probes are allowed, and four calls come: one half opens the circuit, one arrives when that probe
expires, and two more are admitted at once. -/
theorem minute_pos : (0 : ℚ) < 60 := by norm_num

theorem halfMinute_pos : (0 : ℚ) < 30 := by norm_num

def twoProbes : CircuitBreaker where
  failureThreshold := ⟨1, Nat.one_pos⟩
  windowSeconds := 60
  recoveryTimeout := 30
  halfOpenMaxCalls := ⟨2, Nat.two_pos⟩
  windowSeconds_pos := minute_pos
  recoveryTimeout_pos := halfMinute_pos

theorem three_probes_outstanding : ¬∀ clock events, Ordered clock events →
    Admission twoProbes (BreakerRun.steps twoProbes { clock := clock } events) := by
  intro h
  let events : List Event := [.onModelError 0 0 0, .beforeModelCall 1 30, .beforeModelCall 2 60,
    .beforeModelCall 3 60, .beforeModelCall 4 60]
  have hordered : Ordered 0 events := by
    simp only [events, Ordered]
    norm_num
  have hbound := (h 0 events hordered).probes (by decide +kernel) 60 (by decide +kernel)
  have hcount : (outstanding twoProbes (BreakerRun.steps twoProbes { clock := 0 } events).probes 60).length
      = 3 := by decide +kernel
  rw [hcount] at hbound
  exact absurd hbound (by decide)

end VidbyteSdk.Middleware
