import VidbyteSdk.Workflows.Refinement

/-!
# Every run is bounded

The stage loop and the guard-redirect loop share one counter, which every route selection raises and the
machine compares with `max_transitions`. `Bounded` relates what a run has done so far to that counter, in
every phase: a stage visit waits for the transition that follows it, and a visit has the attempts of its
retry policy. The counts of `run_bounded` follow from it, and so does the fuel that always suffices.
-/

namespace VidbyteSdk.Workflows

open VidbyteSdk.Lib

variable {S W : Type}

namespace Phase

def uncounted : Phase S W → Nat
  | chosen _ => 1
  | _ => 0

def untravelled : Phase S W → Nat
  | attempting .. | invoked .. | failed .. | attempted .. | gated .. | deciding .. | chosen .. => 1
  | _ => 0

def overdrawn : Phase S W → Nat
  | counted .. | stopped => 1
  | _ => 0

def attemptsLeft (maxAttempts : Nat) : Phase S W → Nat
  | attempting _ _ attempt => maxAttempts + 1 - attempt
  | invoked _ _ attempt | failed _ _ attempt => maxAttempts - attempt
  | _ => 0

def Allowed (d : CompiledGraph S W) : Phase S W → Prop
  | attempting definition _ attempt | invoked definition _ attempt | failed definition _ attempt =>
    0 < attempt ∧ attempt ≤ definition.policy.retry.maxAttempts ∧
      definition.policy.retry.maxAttempts ≤ d.maxAttempts
  | _ => True

end Phase

/-- What a run has done, against the transitions it has counted. -/
structure Bounded (d : CompiledGraph S W) (m : Moment S W) : Prop where
  selections_eq : m.runtime.selections = m.runtime.transitionCount + m.phase.uncounted
  count_le : m.runtime.transitionCount ≤ d.settings.maxTransitions + m.phase.overdrawn
  visits_le : m.runtime.stageVisits.length ≤ m.runtime.transitionCount + m.phase.untravelled
  invocations_le : m.runtime.invocations + m.phase.attemptsLeft d.maxAttempts
    ≤ m.runtime.stageVisits.length * d.maxAttempts
  allowed : m.phase.Allowed d
  guardRuns_le : ∀ sequence ∈ m.runtime.guardRuns, sequence ≤ d.settings.maxTransitions
  commits_le : ∀ commit ∈ m.runtime.commits, commit.sequence ≤ d.settings.maxTransitions
  accepted_le : ∀ t ∈ m.runtime.transitions, t.accepted = true → t.sequence ≤ d.settings.maxTransitions

namespace Bounded

variable {d : CompiledGraph S W} {initialState : S} {m m' : Moment S W}

theorem start (h : Starts d initialState m) : Bounded d m := by
  obtain ⟨s, -, rfl⟩ := h
  exact ⟨rfl, Nat.zero_le _, Nat.zero_le _, Nat.zero_le _, trivial, by simp, by simp, by simp⟩

theorem step (h : Bounded d m) (hmove : Move d m m') : Bounded d m' := by
  obtain ⟨hsel, hcount, hvisits, hinv, hallowed, hguards, hcommits, haccepted⟩ := h
  cases hmove with
  | visit hstage =>
    have hattempts := d.maxAttempts_le_of_lookup hstage
    refine ⟨hsel, hcount, ?_, ?_, ⟨Nat.one_pos, ?_, hattempts⟩, hguards, hcommits, haccepted⟩
    · rw [List.length_append, List.length_singleton]
      exact Nat.succ_le_succ hvisits
    · simp only [Phase.attemptsLeft, List.length_append, List.length_singleton, Nat.add_mul] at hinv ⊢
      omega
    · exact RetryPolicy.maxAttempts_pos _
  | invoke =>
    refine ⟨hsel, hcount, hvisits, ?_, hallowed, hguards, hcommits, haccepted⟩
    simp only [Phase.attemptsLeft, Phase.Allowed] at hinv hallowed ⊢
    omega
  | fail _ => exact ⟨hsel, hcount, hvisits, hinv, hallowed, hguards, hcommits, haccepted⟩
  | retry hleft =>
    refine ⟨hsel, hcount, hvisits, ?_, ⟨Nat.succ_pos _, hleft, hallowed.2.2⟩, hguards, hcommits, haccepted⟩
    simp only [Phase.attemptsLeft] at hinv ⊢
    omega
  | giveUp | candidate =>
    exact ⟨hsel, hcount, hvisits, (Nat.le_add_right _ _).trans hinv, trivial, hguards, hcommits, haccepted⟩
  | gate | accept | reject => exact ⟨hsel, hcount, hvisits, hinv, trivial, hguards, hcommits, haccepted⟩
  | select =>
    refine ⟨?_, hcount, hvisits, hinv, trivial, hguards, hcommits, haccepted⟩
    simp only [Phase.uncounted] at hsel ⊢
    omega
  | consume _ =>
    refine ⟨?_, ?_, ?_, hinv, trivial, hguards, hcommits, haccepted⟩
    · simpa [Phase.uncounted] using hsel
    · simpa [Phase.overdrawn] using hcount
    · simpa [Phase.untravelled] using hvisits
  | limit _ | refuse =>
    refine ⟨hsel, hcount, hvisits, hinv, trivial, hguards, hcommits, fun t hmem ht => ?_⟩
    rcases List.mem_append.mp hmem with hold | hnew
    · exact haccepted t hold ht
    · rw [List.mem_singleton.mp hnew] at ht
      cases ht
  | guard hlimit =>
    refine ⟨hsel, hlimit, hvisits, hinv, trivial, fun sequence hmem => ?_, hcommits, haccepted⟩
    rcases List.mem_append.mp hmem with hold | hnew
    · exact hguards sequence hold
    · rw [List.mem_singleton.mp hnew]
      exact hlimit
  | redirect =>
    exact ⟨hsel, hcount, hvisits.trans (Nat.le_add_right _ _), hinv, trivial, hguards, hcommits, haccepted⟩
  | commit _ _ _ _ =>
    refine ⟨hsel, hcount, hvisits, hinv, trivial, hguards, fun commit hmem => ?_, haccepted⟩
    rcases List.mem_append.mp hmem with hold | hnew
    · exact hcommits commit hold
    · rw [List.mem_singleton.mp hnew]
      exact hcount
  | next | finish =>
    refine ⟨hsel, hcount, hvisits, hinv, trivial, hguards, hcommits, fun t hmem ht => ?_⟩
    rcases List.mem_append.mp hmem with hold | hnew
    · exact haccepted t hold ht
    · rw [List.mem_singleton.mp hnew]
      exact hcount
  | announce | clear | carry | enter | arrive =>
    exact ⟨hsel, hcount, hvisits, hinv, trivial, hguards, hcommits, haccepted⟩

theorem of_reaches (h : Reaches d initialState m) : Bounded d m :=
  h.induct (fun _ => start) fun _ _ => step

theorem count_le_succ (h : Bounded d m) :
    m.runtime.transitionCount + m.phase.uncounted ≤ d.settings.maxTransitions + 1 ∧
      m.runtime.transitionCount + m.phase.untravelled ≤ d.settings.maxTransitions + 1 := by
  have hcount := h.count_le
  cases hphase : m.phase with
  | _ =>
    rw [hphase] at hcount
    simp only [Phase.uncounted, Phase.untravelled, Phase.overdrawn] at hcount ⊢
    omega

theorem selections_le (h : Bounded d m) : m.runtime.selections ≤ d.settings.maxTransitions + 1 :=
  h.selections_eq.trans_le h.count_le_succ.1

theorem stageVisits_le (h : Bounded d m) :
    m.runtime.stageVisits.length ≤ d.settings.maxTransitions + 1 :=
  h.visits_le.trans h.count_le_succ.2

theorem invocations_le_mul (h : Bounded d m) :
    m.runtime.invocations ≤ (d.settings.maxTransitions + 1) * d.maxAttempts :=
  calc m.runtime.invocations
      ≤ m.runtime.invocations + m.phase.attemptsLeft d.maxAttempts := Nat.le_add_right _ _
    _ ≤ m.runtime.stageVisits.length * d.maxAttempts := h.invocations_le
    _ ≤ (d.settings.maxTransitions + 1) * d.maxAttempts := Nat.mul_le_mul_right _ h.stageVisits_le

end Bounded

/-- A run, with any fuel above `max_transitions`, ends with a result or an error of its own. In each of
its configurations it has selected at most `max_transitions + 1` routes, visited at most as many stages
and called at most as many times the largest attempt bound their callbacks; a selection over the budget
has run no guards, made no commit and is not accepted. -/
theorem run_bounded (d : CompiledGraph S W) (env : Surroundings W) (initialState : S) (world : W)
    (spare : Nat) :
    let fuel := d.settings.maxTransitions + 1 + spare
    (runOf d env fuel initialState world).result ≠ .error .outOfFuel ∧
      ∀ run ∈ configurations d env fuel initialState world,
        run.runtime.selections ≤ d.settings.maxTransitions + 1 ∧
        run.runtime.stageVisits.length ≤ d.settings.maxTransitions + 1 ∧
        run.runtime.invocations ≤ (d.settings.maxTransitions + 1) * d.maxAttempts ∧
        (∀ sequence ∈ run.runtime.guardRuns, sequence ≤ d.settings.maxTransitions) ∧
        (∀ commit ∈ run.runtime.commits, commit.sequence ≤ d.settings.maxTransitions) ∧
        ∀ t ∈ run.runtime.transitions, t.accepted = true → t.sequence ≤ d.settings.maxTransitions := by
  intro fuel
  refine ⟨run_ne_outOfFuel ?_, fun run hrun => ?_⟩
  · show d.settings.maxTransitions < d.settings.maxTransitions + 1 + spare
    omega
  · obtain ⟨phase, hat⟩ := reached_of_mem_configurations hrun
    have hbounded := Bounded.of_reaches hat
    exact ⟨hbounded.selections_le, hbounded.stageVisits_le, hbounded.invocations_le_mul,
      hbounded.guardRuns_le, hbounded.commits_le, hbounded.accepted_le⟩

end VidbyteSdk.Workflows
