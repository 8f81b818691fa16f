import Mathlib.Algebra.Order.Ring.NNRat
import VidbyteSdk.Agents.Pricing.Tracker

/-!
# The spend ledger

What a `UsageTracker` is for: an account of everything a run spent. A run is a list of tracker
operations, in which `merge` nests the whole run of a child agent, to any depth and under the child's
own pricebook. Its meaning is the flat list of `LedgerEvent`s the run caused. The tracker is the
replay of these events (`runOps_eq_replay`), so its rollup can be read off the events alone.
-/

namespace VidbyteSdk.Agents.Pricing

open VidbyteSdk.Lib
open scoped NNRat

variable {Raw : Type}

structure Pricebook (Raw : Type) where
  meter : Meter Raw
  operations : OperationPricingRegistry

/-- One call of a tracker's recording methods. `merge` is a child's rollup, given by the child's own
operations and pricebook. -/
inductive LedgerOp (Raw : Type) where
  | recordCall (response : UsageTracker.Response Raw) (kind : UsageKind)
      (requestedModel : Option String)
  | recordBilledFailure (provider : ProviderName) (model : String) (usage : Raw) (kind : UsageKind)
  | recordUnaccountedCall
  | markRecordingCorrupted
  | recordOperation (operation provider mode : String) (units : Int) (reportedCostUsd : Option ℚ)
  | merge (book : Pricebook Raw) (child : List (LedgerOp Raw))

mutual

def LedgerOp.run : LedgerOp Raw → Pricebook Raw → UsageTracker Raw → UsageTracker Raw
  | .recordCall response kind requestedModel, book, t =>
    t.recordCall book.meter response kind requestedModel
  | .recordBilledFailure provider model usage kind, book, t =>
    t.recordBilledFailure book.meter provider model usage kind
  | .recordUnaccountedCall, _, t => t.recordUnaccountedCall
  | .markRecordingCorrupted, _, t => t.markRecordingCorrupted
  | .recordOperation operation provider mode units reported, book, t =>
    t.recordOperation book.operations operation provider mode units reported
  | .merge book child, _, t => t.merge ((runOps child book {}).rollup none)

def runOps : List (LedgerOp Raw) → Pricebook Raw → UsageTracker Raw → UsageTracker Raw
  | [], _, t => t
  | op :: ops, book, t => runOps ops book (op.run book t)

end

/-! ### Events -/

/-- One thing a run spent, or may have spent, money on. An entry's own number is not read. -/
inductive LedgerEvent (Raw : Type) where
  | call (entry : UsageRecord Raw)
  | operation (entry : OperationUsageRecord)
  | unaccounted
  | corrupted

namespace LedgerEvent

def cost : LedgerEvent Raw → Option ℚ≥0
  | call entry => entry.costUsd
  | operation entry => entry.costUsd
  | unaccounted | corrupted => none

def call? : LedgerEvent Raw → Option (UsageRecord Raw)
  | call entry => some entry
  | operation _ | unaccounted | corrupted => none

def operation? : LedgerEvent Raw → Option OperationUsageRecord
  | operation entry => some entry
  | call _ | unaccounted | corrupted => none

def isUnaccounted : LedgerEvent Raw → Bool
  | unaccounted => true
  | call _ | operation _ | corrupted => false

def isCorrupted : LedgerEvent Raw → Bool
  | corrupted => true
  | call _ | operation _ | unaccounted => false

end LedgerEvent

def callEvent (meter : Meter Raw) (provider : Option ModelProvider) (model : String)
    (payload : Option Raw) (kind : UsageKind) (failed : Bool) (requestedModel : Option String) :
    LedgerEvent Raw :=
  match UsageTracker.parseUsage meter provider payload, provider with
  | .error _, _ => .corrupted
  | .ok (some usage), some provider =>
    match meter.costUsd provider model requestedModel usage with
    | .error _ => .corrupted
    | .ok costUsd =>
      .call { callIndex := 0, provider := provider.value, model, usage, costUsd, kind, failed }
  | .ok _, _ => .unaccounted

/-- The event of one search or fetch operation; an operation that is not billable leaves none. -/
def operationEvents (registry : OperationPricingRegistry) (operation provider mode : String)
    (units : Int) (reportedCostUsd : Option ℚ) : List (LedgerEvent Raw) :=
  if isBillableKey operation provider ∧ 0 < units then
    [.operation
      { callIndex := 0, operation, provider, mode, units
        costUsd := reportedOrTableCost reportedCostUsd (registry.resolve operation provider mode)
          units }]
  else []

mutual

/-- The events of one operation; a merged child contributes its own events in place. -/
def LedgerOp.events : LedgerOp Raw → Pricebook Raw → List (LedgerEvent Raw)
  | .recordCall response kind requestedModel, book =>
    [callEvent book.meter (asProvider response.provider) response.model response.usage kind false
      requestedModel]
  | .recordBilledFailure provider model usage kind, book =>
    [callEvent book.meter (asProvider provider) model (some usage) kind true none]
  | .recordUnaccountedCall, _ => [.unaccounted]
  | .markRecordingCorrupted, _ => [.corrupted]
  | .recordOperation operation provider mode units reported, book =>
    operationEvents book.operations operation provider mode units reported
  | .merge book child, _ => eventsOf child book

def eventsOf : List (LedgerOp Raw) → Pricebook Raw → List (LedgerEvent Raw)
  | [], _ => []
  | op :: ops, book => op.events book ++ eventsOf ops book

end

theorem eventsOf_append (ops more : List (LedgerOp Raw)) (book : Pricebook Raw) :
    eventsOf (ops ++ more) book = eventsOf ops book ++ eventsOf more book := by
  induction ops with
  | nil => simp [eventsOf]
  | cons op ops ih => simp [eventsOf, ih]

/-! ### The tracker replays the events -/

namespace UsageTracker

attribute [ext] UsageTracker

def applyEvent (t : UsageTracker Raw) : LedgerEvent Raw → UsageTracker Raw
  | .call e => t.appendRecord e.provider e.model e.usage e.costUsd e.kind e.failed
  | .operation e => t.appendOperation e.operation e.provider e.mode e.units e.costUsd
  | .unaccounted => t.recordUnaccountedCall
  | .corrupted => t.markRecordingCorrupted

def replay (t : UsageTracker Raw) (events : List (LedgerEvent Raw)) : UsageTracker Raw :=
  events.foldl applyEvent t

theorem replay_append (t : UsageTracker Raw) (es fs : List (LedgerEvent Raw)) :
    t.replay (es ++ fs) = (t.replay es).replay fs :=
  List.foldl_append ..

theorem replay_concat (t : UsageTracker Raw) (es : List (LedgerEvent Raw)) (e : LedgerEvent Raw) :
    t.replay (es ++ [e]) = (t.replay es).applyEvent e :=
  replay_append t es [e]

theorem replay_records (t : UsageTracker Raw) (es : List (LedgerEvent Raw)) :
    (t.replay es).records
      = t.records ++ renumber UsageRecord.withIndex (t.records.length + 1)
          (es.filterMap LedgerEvent.call?) := by
  induction es using List.reverseRecOn with
  | nil => simp [replay]
  | append_singleton es e ih =>
    rw [replay_concat]
    cases e with
    | call entry =>
      rw [List.filterMap_append, show [LedgerEvent.call entry].filterMap LedgerEvent.call? = [entry]
        from rfl, renumber_concat, ← List.append_assoc, ← ih]
      have hlen := congrArg List.length ih
      simp only [List.length_append, length_renumber] at hlen
      simp only [applyEvent, appendRecord, UsageRecord.withIndex, hlen, Nat.add_right_comm]
    | operation | unaccounted | corrupted =>
      rw [List.filterMap_append, List.filterMap_cons_none rfl, List.filterMap_nil, List.append_nil]
      exact ih

theorem replay_operations (t : UsageTracker Raw) (es : List (LedgerEvent Raw)) :
    (t.replay es).operations
      = t.operations ++ renumber OperationUsageRecord.withIndex (t.operations.length + 1)
          (es.filterMap LedgerEvent.operation?) := by
  induction es using List.reverseRecOn with
  | nil => simp [replay]
  | append_singleton es e ih =>
    rw [replay_concat]
    cases e with
    | operation entry =>
      rw [List.filterMap_append, show [(.operation entry : LedgerEvent Raw)].filterMap
        LedgerEvent.operation? = [entry] from rfl, renumber_concat, ← List.append_assoc, ← ih]
      have hlen := congrArg List.length ih
      simp only [List.length_append, length_renumber] at hlen
      simp only [applyEvent, appendOperation, OperationUsageRecord.withIndex, hlen,
        Nat.add_right_comm]
    | call | unaccounted | corrupted =>
      rw [List.filterMap_append, List.filterMap_cons_none rfl, List.filterMap_nil, List.append_nil]
      exact ih

theorem replay_recordingCorrupted (t : UsageTracker Raw) (es : List (LedgerEvent Raw)) :
    (t.replay es).recordingCorrupted
      = (t.recordingCorrupted || es.any LedgerEvent.isCorrupted) := by
  induction es generalizing t with
  | nil => simp [replay]
  | cons e es ih =>
    refine (ih (t.applyEvent e)).trans ?_
    cases e <;> simp [applyEvent, appendRecord, appendOperation, recordUnaccountedCall,
      markRecordingCorrupted, LedgerEvent.isCorrupted]

theorem replay_unaccountedCalls (t : UsageTracker Raw) (es : List (LedgerEvent Raw)) :
    (t.replay es).unaccountedCalls = t.unaccountedCalls + es.countP LedgerEvent.isUnaccounted := by
  induction es generalizing t with
  | nil => simp [replay]
  | cons e es ih =>
    refine (ih (t.applyEvent e)).trans ?_
    rw [List.countP_cons]
    cases e <;> simp [applyEvent, appendRecord, appendOperation, recordUnaccountedCall,
      markRecordingCorrupted, LedgerEvent.isUnaccounted]
    omega

theorem merge_replay (t : UsageTracker Raw) (es : List (LedgerEvent Raw)) :
    t.merge ((replay {} es).rollup none) = t.replay es := by
  ext1
  · have hcalls : ((replay {} es).rollup none).calls = (replay {} es).records := by simp [rollup]
    rw [replay_records, merge_records, hcalls, replay_records, List.nil_append,
      renumber_renumber UsageRecord.withIndex_withIndex]
  · have hops : ((replay {} es).rollup none).operations = (replay {} es).operations := rfl
    rw [replay_operations, merge_operations, hops, replay_operations, List.nil_append,
      renumber_renumber OperationUsageRecord.withIndex_withIndex]
  · simp only [merge, rollup, replay_recordingCorrupted]
    cases es.any LedgerEvent.isCorrupted <;> simp
  · simp [merge, rollup, replay_unaccountedCalls]

theorem record_eq_applyEvent (meter : Meter Raw) (t : UsageTracker Raw)
    (provider : Option ModelProvider) (model : String) (payload : Option Raw) (kind : UsageKind)
    (failed : Bool) (requestedModel : Option String) :
    t.record meter provider model payload kind failed requestedModel
      = t.applyEvent (callEvent meter provider model payload kind failed requestedModel) := by
  unfold record callEvent
  cases parseUsage meter provider payload with
  | error => rfl
  | ok usage =>
    cases usage with
    | none => rfl
    | some usage =>
      cases provider with
      | none => rfl
      | some provider =>
        simp only
        cases meter.costUsd provider model requestedModel usage <;> rfl

theorem recordOperation_eq_replay (registry : OperationPricingRegistry) (t : UsageTracker Raw)
    (operation provider mode : String) (units : Int) (reported : Option ℚ) :
    t.recordOperation registry operation provider mode units reported
      = t.replay (operationEvents registry operation provider mode units reported) := by
  unfold recordOperation operationEvents
  by_cases hk : isBillableKey operation provider
  · by_cases hu : 0 < units
    · rw [if_neg (by simp [hk, hu]), if_pos ⟨hk, hu⟩]
      rfl
    · rw [if_pos (by simp [not_lt.mp hu]), if_neg (fun h => hu h.2)]
      rfl
  · rw [if_pos (by simp [hk]), if_neg (fun h => hk h.1)]
    rfl

end UsageTracker

open UsageTracker

mutual

theorem LedgerOp.run_eq_replay : ∀ (op : LedgerOp Raw) (book : Pricebook Raw) (t : UsageTracker Raw),
    op.run book t = t.replay (op.events book)
  | .recordCall response kind requestedModel, book, t => by
    rw [LedgerOp.run, LedgerOp.events, recordCall, record_eq_applyEvent]
    rfl
  | .recordBilledFailure provider model usage kind, book, t => by
    rw [LedgerOp.run, LedgerOp.events, recordBilledFailure, record_eq_applyEvent]
    rfl
  | .recordUnaccountedCall, _, _ => rfl
  | .markRecordingCorrupted, _, _ => rfl
  | .recordOperation operation provider mode units reported, book, t => by
    rw [LedgerOp.run, LedgerOp.events, recordOperation_eq_replay]
  | .merge book child, _, t => by
    rw [LedgerOp.run, LedgerOp.events, runOps_eq_replay child book {}, merge_replay]

theorem runOps_eq_replay : ∀ (ops : List (LedgerOp Raw)) (book : Pricebook Raw)
    (t : UsageTracker Raw), runOps ops book t = t.replay (eventsOf ops book)
  | [], _, _ => rfl
  | op :: ops, book, t => by
    rw [runOps, eventsOf, replay_append, ← op.run_eq_replay book t,
      runOps_eq_replay ops book (op.run book t)]

end

/-! ### What the rollup says about the events -/

def FullyMeasured (es : List (LedgerEvent Raw)) : Prop :=
  ∀ e ∈ es, e.cost ≠ none

def spend (es : List (LedgerEvent Raw)) : ℚ≥0 :=
  (es.map fun e => e.cost.getD 0).sum

theorem FullyMeasured.of_append {es fs : List (LedgerEvent Raw)} (h : FullyMeasured (es ++ fs)) :
    FullyMeasured es :=
  fun e he => h e (List.mem_append_left _ he)

theorem spend_le_append (es fs : List (LedgerEvent Raw)) : spend es ≤ spend (es ++ fs) := by
  rw [spend, spend, List.map_append, List.sum_append]
  exact le_self_add

theorem knownSum_records_operations (es : List (LedgerEvent Raw)) :
    knownSum ((es.filterMap LedgerEvent.call?).map (·.costUsd)
        ++ (es.filterMap LedgerEvent.operation?).map (·.costUsd)) = spend es := by
  induction es with
  | nil => rfl
  | cons e es ih =>
    rw [knownSum_append] at ih ⊢
    cases e with
    | call entry =>
      have hs : spend (LedgerEvent.call entry :: es) = entry.costUsd.getD 0 + spend es := rfl
      rw [hs, ← ih, ← add_assoc]
      cases h : entry.costUsd <;> simp [List.filterMap_cons, LedgerEvent.call?, LedgerEvent.operation?, h]
    | operation entry =>
      have hs : spend ((.operation entry : LedgerEvent Raw) :: es)
        = entry.costUsd.getD 0 + spend es := rfl
      rw [hs, ← ih, add_left_comm]
      cases h : entry.costUsd <;> simp [List.filterMap_cons, LedgerEvent.call?, LedgerEvent.operation?, h]
    | unaccounted | corrupted =>
      have hs : ∀ e : LedgerEvent Raw, e.cost = none → spend (e :: es) = spend es := by
        intro e he
        simp [spend, he]
      rw [hs _ rfl, ← ih]
      rfl

section Rollup

variable (es : List (LedgerEvent Raw))

theorem rollup_calls :
    ((replay {} es).rollup none).calls
      = renumber UsageRecord.withIndex 1 (es.filterMap LedgerEvent.call?) := by
  simp [rollup, replay_records]

theorem rollup_operations :
    ((replay {} es).rollup none).operations
      = renumber OperationUsageRecord.withIndex 1 (es.filterMap LedgerEvent.operation?) := by
  simp [rollup, replay_operations]

theorem rollup_costUsd :
    ((replay {} es).rollup none).costUsd
      = sumOrNone ((es.filterMap LedgerEvent.call?).map (·.costUsd)
          ++ (es.filterMap LedgerEvent.operation?).map (·.costUsd)) := by
  have hcost : ((replay {} es).rollup none).costUsd
      = sumOrNone (((replay {} es).rollup none).calls.map (·.costUsd)
          ++ ((replay {} es).rollup none).operations.map (·.costUsd)) := rfl
  rw [hcost, rollup_calls, rollup_operations,
    map_renumber (f := fun r : UsageRecord Raw => r.costUsd) UsageRecord.costUsd_withIndex,
    map_renumber (f := fun r : OperationUsageRecord => r.costUsd)
      OperationUsageRecord.costUsd_withIndex]

theorem rollup_costUsd_getD : (((replay {} es).rollup none).costUsd).getD 0 = spend es := by
  rw [rollup_costUsd, sumOrNone_getD, knownSum_records_operations]

theorem rollup_costMeasured :
    ((replay {} es).rollup none).costMeasured = true ↔ FullyMeasured es := by
  have hcalls : ((replay {} es).rollup none).calls.all (·.costUsd.isSome)
      = (es.filterMap LedgerEvent.call?).all (·.costUsd.isSome) := by
    rw [rollup_calls]
    exact all_renumber fun _ _ => rfl
  have hops : ((replay {} es).rollup none).operations.all (·.costUsd.isSome)
      = (es.filterMap LedgerEvent.operation?).all (·.costUsd.isSome) := by
    rw [rollup_operations]
    exact all_renumber fun _ _ => rfl
  have hint : ((replay {} es).rollup none).recordingIntegrity = .intact
      ↔ es.any LedgerEvent.isCorrupted = false := by
    simp only [rollup, replay_recordingCorrupted]
    cases es.any LedgerEvent.isCorrupted <;> simp
  have hunacc : ((replay {} es).rollup none).unaccountedCallCount
      = es.countP LedgerEvent.isUnaccounted := by
    simp [rollup, replay_unaccountedCalls]
  rw [UsageRollup.costMeasured, hcalls, hops, hunacc]
  simp only [Bool.and_eq_true, beq_iff_eq, hint, List.countP_eq_zero, List.any_eq_false,
    List.all_eq_true, List.mem_filterMap, forall_exists_index, and_imp]
  constructor
  · rintro ⟨⟨⟨hc, hu⟩, hcall⟩, hop⟩ e he
    cases e with
    | call entry => simpa [LedgerEvent.cost, Option.ne_none_iff_isSome] using hcall entry _ he rfl
    | operation entry =>
      simpa [LedgerEvent.cost, Option.ne_none_iff_isSome] using hop entry _ he rfl
    | unaccounted => exact absurd rfl (hu _ he)
    | corrupted => exact absurd rfl (hc _ he)
  · intro h
    refine ⟨⟨⟨?_, ?_⟩, ?_⟩, ?_⟩
    · rintro (_ | _ | _ | _) he <;> simp [LedgerEvent.isCorrupted]
      exact h _ he rfl
    · rintro (_ | _ | _ | _) he <;> simp [LedgerEvent.isUnaccounted]
      exact h _ he rfl
    · rintro entry (e | _ | _ | _) he hentry <;> simp only [LedgerEvent.call?, reduceCtorEq] at hentry
      cases hentry
      exact Option.isSome_iff_ne_none.mpr (h _ he)
    · rintro entry (_ | e | _ | _) he hentry <;>
        simp only [LedgerEvent.operation?, reduceCtorEq] at hentry
      cases hentry
      exact Option.isSome_iff_ne_none.mpr (h _ he)

end Rollup

/-- Runs whose events are the same up to their order come to the same totals, whatever part of them a nested run has
recorded and whenever it was merged. Of the cost, whose rounding follows the order, only whether there is one. -/
theorem rollup_perm {book : Pricebook Raw} {ops ops' : List (LedgerOp Raw)}
    (h : (eventsOf ops book).Perm (eventsOf ops' book)) :
    let r := (runOps ops book {}).rollup none
    let r' := (runOps ops' book {}).rollup none
    r.costUsd.isSome = r'.costUsd.isSome ∧ r.costMeasured = r'.costMeasured ∧
      r.modelCallCount = r'.modelCallCount ∧ r.operationCount = r'.operationCount ∧
      r.inputTokens = r'.inputTokens ∧ r.outputTokens = r'.outputTokens ∧
      r.totalTokens = r'.totalTokens ∧ r.cachedInputTokens = r'.cachedInputTokens := by
  intro r r'
  have hr : r = (replay {} (eventsOf ops book)).rollup none := by rw [← runOps_eq_replay]
  have hr' : r' = (replay {} (eventsOf ops' book)).rollup none := by rw [← runOps_eq_replay]
  have hcalls : ∀ {β : Type} (f : UsageRecord Raw → β), (∀ n call, f (call.withIndex n) = f call) →
      (r.calls.map f).Perm (r'.calls.map f) := by
    intro β f hf
    rw [hr, hr', rollup_calls, rollup_calls, map_renumber hf, map_renumber hf]
    exact (h.filterMap _).map f
  have hoperations : (r.operations.map (·.costUsd)).Perm (r'.operations.map (·.costUsd)) := by
    rw [hr, hr', rollup_operations, rollup_operations]
    rw [map_renumber OperationUsageRecord.costUsd_withIndex, map_renumber OperationUsageRecord.costUsd_withIndex]
    exact (h.filterMap _).map _
  have hmeasured : r.costMeasured = r'.costMeasured := by
    rw [Bool.eq_iff_iff, hr, hr', rollup_costMeasured, rollup_costMeasured, FullyMeasured, FullyMeasured]
    exact forall_congr' fun e => imp_congr_left h.mem_iff
  have hcount : r.calls.length = r'.calls.length := by simpa using (hcalls (fun _ => ()) fun _ _ => rfl).length_eq
  have hopCount : r.operations.length = r'.operations.length := by simpa using hoperations.length_eq
  refine ⟨?_, hmeasured, hcount, hopCount, ?_, ?_, ?_, ?_⟩
  · exact congrArg Option.isSome (sumOrNone_perm ((hcalls (·.costUsd) fun _ _ => rfl).append hoperations))
  · exact sumOrNone_perm (hcalls (·.usage.inputTokens) fun _ _ => rfl)
  · exact sumOrNone_perm (hcalls (·.usage.outputTokens) fun _ _ => rfl)
  · exact sumOrNone_perm (hcalls (·.usage.totalTokens) fun _ _ => rfl)
  · exact sumOrNone_perm (hcalls (·.usage.cachedInputTokens) fun _ _ => rfl)

def emptyBook : Pricebook Unit := ⟨⟨fun _ _ => .ok none, fun _ _ _ _ => .ok none⟩, ⟨fun _ => none⟩⟩

theorem rollup_perm_merge :
    ((runOps [.merge emptyBook [.recordUnaccountedCall], .markRecordingCorrupted] emptyBook {}).rollup none).costMeasured
      = ((runOps [.markRecordingCorrupted, .recordUnaccountedCall] emptyBook {}).rollup none).costMeasured := by
  refine (rollup_perm ?_).2.1
  exact List.Perm.swap LedgerEvent.corrupted LedgerEvent.unaccounted []

end VidbyteSdk.Agents.Pricing
