import VidbyteSdk.Agents.Multi.Attempts
import VidbyteSdk.Agents.Multi.Runner

/-!
# The trace of a run

What a trace says of a run, and the invariant that the controller keeps: `Calm` between two attempts
and `Opened` while one is open.
-/

namespace VidbyteSdk.Agents.Multi

open VidbyteSdk.Lib

variable {V W A Q R : Type}

namespace TraceEntry

def isRound : TraceEntry V → Bool
  | .round _ => true
  | _ => false

def isInvocation : TraceEntry V → Bool
  | .invoked _ _ => true
  | _ => false

def isReplan : TraceEntry V → Bool
  | .accepted _ (.applyPlan _ true) => true
  | _ => false

def call? : TraceEntry V → Option (LedgerCall V)
  | .accepted _ call => some call
  | _ => none

def attempt? : TraceEntry V → Option (ℕ × LedgerCall V)
  | .accepted n (.startTask dispatch) => some (n, .startTask dispatch)
  | .accepted n (.applyReport report owner) => some (n, .applyReport report owner)
  | .accepted n (.recordDispatchFailure taskId owner blocker blocked) =>
    some (n, .recordDispatchFailure taskId owner blocker blocked)
  | _ => none

end TraceEntry

open TraceEntry

inductive Closes (dispatch : AgentDispatch) : LedgerCall V → Prop
  | report (report : AgentReport V) (h : report.taskId = dispatch.taskId) :
      Closes dispatch (.applyReport report dispatch.owner)
  | failure (blocker : TaskBlocker V) (blocked : Bool) :
      Closes dispatch (.recordDispatchFailure dispatch.taskId dispatch.owner blocker blocked)

/-- Every start is followed by the one call that closes it, in the same round. -/
inductive Paired : List (ℕ × LedgerCall V) → Prop
  | nil : Paired []
  | concat (round : ℕ) (dispatch : AgentDispatch) (call : LedgerCall V)
      (earlier : List (ℕ × LedgerCall V)) (hearlier : Paired earlier) (hclose : Closes dispatch call) :
      Paired (earlier ++ [(round, .startTask dispatch), (round, call)])

/-- The part of a run's state that the trace speaks about. -/
structure RunCore (V : Type) where
  ledger : TaskLedger V
  trace : List (TraceEntry V)
  rounds : ℕ
  replans : ℕ

def MultiAgentRunState.core (state : MultiAgentRunState V W A) : RunCore V :=
  ⟨state.ledger, state.trace, state.rounds, state.replans⟩

namespace RunCore

def record (core : RunCore V) (entry : TraceEntry V) : RunCore V :=
  { core with trace := core.trace ++ [entry] }

def accept (core : RunCore V) (call : LedgerCall V) (ledger : TaskLedger V) : RunCore V :=
  { core with
    ledger := ledger
    trace := core.trace ++ [.accepted core.rounds call] }

end RunCore

variable (team : MultiAgent V W A Q R)

/-- What holds of a run at every moment of round `n`, with at most `budget` worker invocations so far. -/
structure Counted (n budget : ℕ) (core : RunCore V) : Prop where
  /-- The accepted calls make the ledger. -/
  replay : TaskLedger.after team.same team.createLedger (core.trace.filterMap call?) = core.ledger
  heads : ∀ ledger, TraceEntry.round ledger ∈ core.trace → ledger.Idle
  rounds : core.trace.countP isRound = n
  rounds_eq : core.rounds = n
  replans : core.trace.countP isReplan = core.replans
  replans_le : core.replans ≤ team.settings.maxReplans
  invocations : core.trace.countP isInvocation ≤ budget

structure Calm (n budget : ℕ) (core : RunCore V) : Prop where
  counted : Counted team n budget core
  idle : core.ledger.Idle
  paired : Paired (core.trace.filterMap attempt?)

structure Opened (n budget : ℕ) (dispatch : AgentDispatch) (core : RunCore V) : Prop where
  counted : Counted team n budget core
  attempt : core.ledger.OpenAttempt dispatch.taskId dispatch.owner
  started : ∃ earlier, Paired earlier ∧
    core.trace.filterMap attempt? = earlier ++ [(core.rounds, .startTask dispatch)]

variable {team} {n budget : ℕ} {core : RunCore V}

theorem Counted.lawful (h : Counted team n budget core) : core.ledger.Lawful := by
  rw [← h.replay]
  exact (TaskLedger.lawful_after team.same _ (TaskLedger.lawful_create _ _)).1

theorem Counted.mono (h : Counted team n budget core) {budget' : ℕ} (hle : budget ≤ budget') :
    Counted team n budget' core :=
  { h with invocations := h.invocations.trans hle }

theorem Calm.mono (h : Calm team n budget core) {budget' : ℕ} (hle : budget ≤ budget') :
    Calm team n budget' core :=
  { h with counted := h.counted.mono hle }

variable {dispatch : AgentDispatch}

theorem Opened.mono (h : Opened team n budget dispatch core) {budget' : ℕ}
    (hle : budget ≤ budget') : Opened team n budget' dispatch core :=
  { h with counted := h.counted.mono hle }

/-! ### One entry more -/

variable {ledger : TaskLedger V}

variable {call : LedgerCall V}

theorem Counted.accept (h : Counted team n budget core)
    (hfinal : ledger = (call.run team.same core.ledger).final)
    (hcall : isReplan (.accepted core.rounds call) = false) :
    Counted team n budget (core.accept call ledger) where
  replay := by
    show TaskLedger.after _ _ ((core.trace ++ [_]).filterMap call?) = ledger
    rw [List.filterMap_append]
    exact (TaskLedger.after_concat _ _ _ _).trans (by rw [h.replay, hfinal])
  heads ledger hmem := by
    rcases List.mem_append.mp hmem with hmem | hmem
    · exact h.heads ledger hmem
    · simp at hmem
  rounds := by simp [RunCore.accept, h.rounds, isRound]
  rounds_eq := h.rounds_eq
  replans := by simp [RunCore.accept, h.replans, hcall]
  replans_le := h.replans_le
  invocations := by simpa [RunCore.accept, isInvocation] using h.invocations

theorem Counted.acceptReplan (h : Counted team n budget core) {plan : OrchestratorPlan V}
    (hfinal : ledger = ((LedgerCall.applyPlan plan true).run team.same core.ledger).final)
    (hlt : core.replans < team.settings.maxReplans) :
    Counted team n budget
      { core.accept (.applyPlan plan true) ledger with replans := core.replans + 1 } where
  replay := by
    show TaskLedger.after _ _ ((core.trace ++ [_]).filterMap call?) = ledger
    rw [List.filterMap_append]
    exact (TaskLedger.after_concat _ _ _ _).trans (by rw [h.replay, hfinal])
  heads ledger hmem := by
    rcases List.mem_append.mp hmem with hmem | hmem
    · exact h.heads ledger hmem
    · simp at hmem
  rounds := by simp [RunCore.accept, h.rounds, isRound]
  rounds_eq := h.rounds_eq
  replans := by simp [RunCore.accept, h.replans, isReplan]
  replans_le := hlt
  invocations := by simpa [RunCore.accept, isInvocation] using h.invocations

theorem Calm.nextRound (h : Calm team n budget core) :
    Calm team (n + 1) budget { core.record (.round core.ledger) with rounds := core.rounds + 1 } where
  counted :=
    { replay := by simpa [RunCore.record, List.filterMap_cons, call?] using h.counted.replay
      heads := by
        intro ledger hmem
        rcases List.mem_append.mp hmem with hmem | hmem
        · exact h.counted.heads ledger hmem
        · obtain rfl : ledger = core.ledger := by simpa using hmem
          exact h.idle
      rounds := by simp [RunCore.record, h.counted.rounds, isRound]
      rounds_eq := congrArg (· + 1) h.counted.rounds_eq
      replans := by simp [RunCore.record, h.counted.replans, isReplan]
      replans_le := h.counted.replans_le
      invocations := by simpa [RunCore.record, isInvocation] using h.counted.invocations }
  idle := h.idle
  paired := by simpa [RunCore.record, List.filterMap_cons, attempt?] using h.paired

theorem Opened.invoke (h : Opened team n budget dispatch core)
    (owner : String) :
    Opened team n (budget + 1) dispatch (core.record (.invoked core.rounds owner)) where
  counted :=
    { replay := by simpa [RunCore.record, List.filterMap_cons, call?] using h.counted.replay
      heads := by
        intro ledger hmem
        rcases List.mem_append.mp hmem with hmem | hmem
        · exact h.counted.heads ledger hmem
        · simp at hmem
      rounds := by simp [RunCore.record, h.counted.rounds, isRound]
      rounds_eq := h.counted.rounds_eq
      replans := by simp [RunCore.record, h.counted.replans, isReplan]
      replans_le := h.counted.replans_le
      invocations := by simpa [RunCore.record, isInvocation] using h.counted.invocations }
  attempt := h.attempt
  started := by simpa [RunCore.record, List.filterMap_cons, attempt?] using h.started

theorem Calm.accept (h : Calm team n budget core)
    (hfinal : ledger = (call.run team.same core.ledger).final)
    (hcall : isReplan (.accepted core.rounds call) = false)
    (hattempt : attempt? (.accepted core.rounds call) = none) (hidle : ledger.Idle) :
    Calm team n budget (core.accept call ledger) where
  counted := h.counted.accept hfinal hcall
  idle := hidle
  paired := by simpa [RunCore.accept, List.filterMap_cons, hattempt] using h.paired

theorem Calm.open (h : Calm team n budget core)
    (hfinal : ledger = ((LedgerCall.startTask dispatch).run team.same core.ledger).final)
    (hopen : ledger.OpenAttempt dispatch.taskId dispatch.owner) :
    Opened team n budget dispatch (core.accept (.startTask dispatch) ledger) where
  counted := h.counted.accept hfinal rfl
  attempt := hopen
  started := ⟨_, h.paired, by simp [RunCore.accept, attempt?]⟩

theorem Opened.close (h : Opened team n budget dispatch core)
    (hfinal : ledger = (call.run team.same core.ledger).final) (hclose : Closes dispatch call)
    (hidle : ledger.Idle) : Calm team n budget (core.accept call ledger) where
  counted := h.counted.accept hfinal (by cases hclose <;> rfl)
  idle := hidle
  paired := by
    obtain ⟨earlier, hearlier, hstarted⟩ := h.started
    have hcall : attempt? (.accepted core.rounds call) = some (core.rounds, call) := by
      cases hclose <;> rfl
    have htrace : (core.accept call ledger).trace.filterMap attempt?
        = earlier ++ [(core.rounds, .startTask dispatch), (core.rounds, call)] := by
      simp [RunCore.accept, hstarted, hcall]
    rw [htrace]
    exact .concat core.rounds dispatch call earlier hearlier hclose

end VidbyteSdk.Agents.Multi
