import VidbyteSdk.Agents.Pricing.Ledger

/-!
# The spend cap

`AgentSpendCap.stop_output` of `agents/spend_cap.py`: whether a capped run must stop because its
measured spend reached the cap, or because its spend can no longer be measured.
-/

namespace VidbyteSdk.Agents

open VidbyteSdk.Lib Pricing
open scoped NNRat

variable {Raw : Type}

/-- `max_spend_usd`, which the runtime configuration requires to be greater than zero. -/
structure MaxSpend where
  usd : ℚ≥0
  pos : 0 < usd

namespace AgentSpendCap

def blindCauses (rollup : UsageRollup Raw) : List String :=
  let unpricedCalls := sortedSet
    ((rollup.calls.filter (·.costUsd.isNone)).map fun r => s!"{r.provider}:{r.model}")
  let unpricedOperations := sortedSet
    ((rollup.operations.filter (·.costUsd.isNone)).map fun r => s!"{r.provider}:{r.operation}")
  (if unpricedCalls.isEmpty then []
    else ["no price for " ++ String.intercalate ", " unpricedCalls]) ++
  (if unpricedOperations.isEmpty then []
    else ["no price for operation " ++ String.intercalate ", " unpricedOperations]) ++
  (if rollup.unaccountedCallCount = 0 then []
    else [s!"{rollup.unaccountedCallCount} model calls reported no usage"]) ++
  (if rollup.recordingIntegrity = .corrupted then ["usage recording failed"] else [])

def reachedText : String := "Agent runtime stopped after reaching max_spend_usd."

/-- The stop text when a run capped at `maxSpend` must stop on this rollup. A reached cap is
reported before a blind meter. -/
def stopOutput (maxSpend : MaxSpend) (rollup : UsageRollup Raw) : Option String :=
  if rollup.costUsd.any (maxSpend.usd ≤ ·) then some reachedText
  else if rollup.costMeasured then none
  else
    let causes := String.intercalate "; " (blindCauses rollup)
    some s!"Agent runtime stopped because max_spend_usd is set and this run's spend could not be fully measured: {causes}."

/-- On the rollup of a run, the cap lets the run go on exactly when everything the run did has a
known cost and these costs sum to less than the cap. -/
theorem stopOutput_eq_none_iff (maxSpend : MaxSpend) (es : List (LedgerEvent Raw)) :
    stopOutput maxSpend ((UsageTracker.replay {} es).rollup none) = none
      ↔ FullyMeasured es ∧ spend es < maxSpend.usd := by
  have hreach : ((UsageTracker.replay {} es).rollup none).costUsd.any (maxSpend.usd ≤ ·) = true
      ↔ maxSpend.usd ≤ spend es := by
    rw [rollup_costUsd, ← knownSum_records_operations es, ← exists_sumOrNone_ge maxSpend.pos]
    simp [Option.any_eq_true]
  rw [stopOutput]
  by_cases hcap : maxSpend.usd ≤ spend es
  · rw [if_pos (hreach.mpr hcap)]
    simp [hcap]
  · rw [if_neg (mt hreach.mp hcap)]
    by_cases hm : FullyMeasured es
    · rw [if_pos ((rollup_costMeasured es).mpr hm)]
      simp [hm, not_le.mp hcap]
    · rw [if_neg (mt (rollup_costMeasured es).mp hm)]
      simp [hm]

/-- **Spend accounting.** For every run of a tracker under any pricebook, with child runs merged to
any depth: the rollup lists exactly the run's calls, numbered from 1; merging a child's rollup is
recording the child's own operations; the rollup is measured exactly when every event of the run has
a known cost, and then its cost is their sum; the cap passes only a fully measured run below it, and
a stop stays a stop whatever the run does next. -/
theorem spend_accounting (book : Pricebook Raw) (ops : List (LedgerOp Raw)) :
    let t := runOps ops book {}
    let r := t.rollup none
    let es := eventsOf ops book
    r.calls = renumber UsageRecord.withIndex 1 (es.filterMap LedgerEvent.call?) ∧
    r.calls.map (·.callIndex) = List.range' 1 r.modelCallCount ∧
    (∀ (childBook : Pricebook Raw) (child : List (LedgerOp Raw)),
      t.merge ((runOps child childBook {}).rollup none) = runOps child childBook t) ∧
    (r.costMeasured = true ↔ ∀ e ∈ es, e.cost ≠ none) ∧
    (r.costMeasured = true → r.costUsd.getD 0 = (es.map fun e => e.cost.getD 0).sum) ∧
    ∀ maxSpend : MaxSpend,
      (stopOutput maxSpend r = none →
        (∀ e ∈ es, e.cost ≠ none) ∧ (es.map fun e => e.cost.getD 0).sum < maxSpend.usd) ∧
      ∀ more : List (LedgerOp Raw), stopOutput maxSpend r ≠ none →
        stopOutput maxSpend ((runOps (ops ++ more) book {}).rollup none) ≠ none := by
  intro t r es
  have ht : t = UsageTracker.replay {} es := runOps_eq_replay ops book {}
  have hr : r = (UsageTracker.replay {} es).rollup none := by rw [← ht]
  refine ⟨?_, ?_, ?_, ?_, ?_, ?_⟩
  · rw [hr, rollup_calls]
  · have hnum := t.records_numbered
    simpa [r, UsageTracker.rollup, Numbered] using hnum
  · intro childBook child
    rw [runOps_eq_replay child childBook {}, UsageTracker.merge_replay, runOps_eq_replay]
  · rw [hr]
    exact rollup_costMeasured es
  · intro _
    rw [hr]
    exact rollup_costUsd_getD es
  · intro maxSpend
    refine ⟨fun hnone => ?_, fun more hstop hnone => ?_⟩
    · rw [hr] at hnone
      exact (stopOutput_eq_none_iff maxSpend es).mp hnone
    · -- a run that may go on was measured and below the cap at every earlier moment
      rw [runOps_eq_replay, eventsOf_append, stopOutput_eq_none_iff] at hnone
      apply hstop
      rw [hr, stopOutput_eq_none_iff]
      exact ⟨hnone.1.of_append, (spend_le_append es _).trans_lt hnone.2⟩

end AgentSpendCap

end VidbyteSdk.Agents
