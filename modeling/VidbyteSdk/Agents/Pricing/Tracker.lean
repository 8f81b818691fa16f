import Mathlib.Data.Rat.Floor
import VidbyteSdk.Agents.Pricing.Records
import VidbyteSdk.Lib.Text

/-!
# The usage tracker

`UsageTracker` of `agents/pricing/tracker.py`: the per-run accumulator of model calls and priced
operations. The token axis is priced by a `Meter`, which stands for the provider usage classes and
the model pricebook; every behaviour of a parser or of a cost formula is covered, exceptions
included. The operation tariffs are the source's own arithmetic.

The tracker carries the numbering of its two ledgers as fields, so a ledger whose indices skip or
repeat a number cannot be built.
-/

namespace VidbyteSdk.Agents.Pricing

open VidbyteSdk.Lib
open scoped NNRat

inductive ModelProvider where
  | openai | anthropic | gemini | xai | deepseek | glm | minimax | kimi | metaAi | mistral
  | openrouter | elevenlabs | playai | typesafe
  deriving DecidableEq

namespace ModelProvider

def value : ModelProvider → String
  | openai => "openai"
  | anthropic => "anthropic"
  | gemini => "gemini"
  | xai => "xai"
  | deepseek => "deepseek"
  | glm => "glm"
  | minimax => "minimax"
  | kimi => "kimi"
  | metaAi => "meta"
  | mistral => "mistral"
  | openrouter => "openrouter"
  | elevenlabs => "elevenlabs"
  | playai => "playai"
  | typesafe => "typesafe"

def all : List ModelProvider :=
  [openai, anthropic, gemini, xai, deepseek, glm, minimax, kimi, metaAi, mistral, openrouter,
    elevenlabs, playai, typesafe]

/-- `ModelProvider(text)`; `none` where the enum lookup raises `ValueError`. -/
def ofValue (text : String) : Option ModelProvider :=
  all.find? (·.value == text)

end ModelProvider

inductive UsageClass where
  | openAI | anthropic | gemini | chatCompletion | openRouter | jev
  deriving DecidableEq

/-- The provider's usage parser, or `none` when it reports no billable usage. -/
def ModelProvider.usageClass : ModelProvider → Option UsageClass
  | .openai => some .openAI
  | .anthropic => some .anthropic
  | .gemini => some .gemini
  | .xai | .deepseek | .glm | .minimax | .kimi | .metaAi | .mistral => some .chatCompletion
  | .openrouter => some .openRouter
  | .typesafe => some .jev
  | .elevenlabs | .playai => none

/-- An exception of a usage parser or of a cost formula. -/
inductive MeteringError where
  | raised (message : String)
  deriving DecidableEq

structure Meter (Raw : Type) where
  /-- `usage_cls.from_usage_payload(payload)`. -/
  fromUsagePayload : UsageClass → Raw → Except MeteringError (Option (ProviderUsage Raw))
  /-- `usage.cost_usd(pricing.resolve_answered(provider, model, requested_model))`. -/
  costUsd : ModelProvider → (model : String) → (requestedModel : Option String) →
    ProviderUsage Raw → Except MeteringError (Option ℚ≥0)

/-- A per-operation tariff: a fixed base plus a per-unit rate over an allowance. -/
structure OperationPricing where
  usdFixed : ℚ≥0 := 0
  usdPerUnit : ℚ≥0 := 0
  includedUnits : Int := 0
  unitBatch : Int := 1

/-- The rate applied to the billable units above the allowance, rounded up to whole batches. -/
def OperationPricing.costUsd (pricing : OperationPricing) (units : Int) : ℚ≥0 :=
  let billable := max 0 (units - pricing.includedUnits)
  let batches := if pricing.unitBatch > 0 then ⌈(billable : ℚ) / pricing.unitBatch⌉ else billable
  pricing.usdFixed + pricing.usdPerUnit * batches.toNat

/-- Resolves an operation, a provider and a mode to a tariff. -/
structure OperationPricingRegistry where
  table : String × String × String → Option OperationPricing

/-- The tariff of the exact triple, else of the provider's default mode. -/
def OperationPricingRegistry.resolve (registry : OperationPricingRegistry)
    (operation provider mode : String) : Option OperationPricing :=
  if [operation, provider, mode].any isBlank then none
  else
    match registry.table (operation, provider, mode) with
    | some exact => some exact
    | none => registry.table (operation, provider, "default")

inductive ProviderName where
  | member (provider : ModelProvider)
  | text (value : String)
  deriving DecidableEq

/-- `_as_provider`. -/
def asProvider : ProviderName → Option ModelProvider
  | .member provider => some provider
  | .text value => ModelProvider.ofValue value

def isBillableKey (operation provider : String) : Bool :=
  !isBlank operation && !isBlank provider

/-- A valid non-negative reported cost wins over the tariff's own math. A reported cost that is not
a finite number is `none` here. -/
def reportedOrTableCost (reportedCostUsd : Option ℚ) (pricing : Option OperationPricing)
    (units : Int) : Option ℚ≥0 :=
  match reportedCostUsd with
  | some cost =>
    if h : 0 ≤ cost then some ⟨cost, h⟩ else pricing.map (·.costUsd units)
  | none => pricing.map (·.costUsd units)

def cacheHitRate {Raw : Type} (records : List (UsageRecord Raw)) : Option ℚ≥0 :=
  let reported := records.filterMap fun record =>
    match record.usage.totalPromptTokens, record.usage.cachedInputTokens with
    | some total, some cached => some (min cached total, total)
    | _, _ => none
  let promptTotal := (reported.map (·.2)).sum
  if promptTotal = 0 then none else some ((reported.map (·.1)).sum / promptTotal)

variable {Raw : Type}

theorem numbered_records : Numbered (@UsageRecord.callIndex Raw) [] := Numbered.nil

theorem numbered_operations : Numbered OperationUsageRecord.callIndex [] := Numbered.nil

structure UsageTracker (Raw : Type) where
  records : List (UsageRecord Raw) := []
  operations : List OperationUsageRecord := []
  recordingCorrupted : Bool := false
  unaccountedCalls : Nat := 0
  records_numbered : Numbered UsageRecord.callIndex records := by exact numbered_records
  operations_numbered : Numbered OperationUsageRecord.callIndex operations := by exact numbered_operations

namespace UsageTracker

/-- Flags that a real usage record was lost to an internal metering error. -/
def markRecordingCorrupted (t : UsageTracker Raw) : UsageTracker Raw :=
  { t with recordingCorrupted := true }

/-- Counts one model call that may have been billed but left no usage to price. -/
def recordUnaccountedCall (t : UsageTracker Raw) : UsageTracker Raw :=
  { t with unaccountedCalls := t.unaccountedCalls + 1 }

/-- `self._records.append(record)` for a record numbered `len(self._records) + 1`. -/
def appendRecord (t : UsageTracker Raw) (provider model : String) (usage : ProviderUsage Raw)
    (costUsd : Option ℚ≥0) (kind : UsageKind) (failed : Bool) : UsageTracker Raw :=
  { t with
    records := t.records ++
      [{ callIndex := t.records.length + 1, provider, model, usage, costUsd, kind, failed }]
    records_numbered := t.records_numbered.concat rfl }

def appendOperation (t : UsageTracker Raw) (operation provider mode : String) (units : Int)
    (costUsd : Option ℚ≥0) : UsageTracker Raw :=
  { t with
    operations := t.operations ++
      [{ callIndex := t.operations.length + 1, operation, provider, mode, units, costUsd }]
    operations_numbered := t.operations_numbered.concat rfl }

/-- `_parse_usage`; a `payload` that is not a mapping is `none`. -/
def parseUsage (meter : Meter Raw) (provider : Option ModelProvider) (payload : Option Raw) :
    Except MeteringError (Option (ProviderUsage Raw)) :=
  match provider, payload with
  | some provider, some payload =>
    match provider.usageClass with
    | none => .ok none
    | some usageClass => meter.fromUsagePayload usageClass payload
  | _, _ => .ok none

/-- `_record`: parses and prices one call, then stores it; a call that leaves no record is counted,
and an exception marks the ledger corrupted. -/
def record (meter : Meter Raw) (t : UsageTracker Raw) (provider : Option ModelProvider)
    (model : String) (payload : Option Raw) (kind : UsageKind) (failed : Bool)
    (requestedModel : Option String) : UsageTracker Raw :=
  match parseUsage meter provider payload with
  | .error _ => t.markRecordingCorrupted
  | .ok usage =>
    match usage, provider with
    | some usage, some provider =>
      match meter.costUsd provider model requestedModel usage with
      | .error _ => t.markRecordingCorrupted
      | .ok cost => t.appendRecord provider.value model usage cost kind failed
    | _, _ => t.recordUnaccountedCall

/-- The attributes `record_call` reads off a response. -/
structure Response (Raw : Type) where
  provider : ProviderName
  model : String
  usage : Option Raw

def recordCall (meter : Meter Raw) (t : UsageTracker Raw) (response : Response Raw)
    (kind : UsageKind) (requestedModel : Option String) : UsageTracker Raw :=
  t.record meter (asProvider response.provider) response.model response.usage kind false
    requestedModel

def recordBilledFailure (meter : Meter Raw) (t : UsageTracker Raw) (provider : ProviderName)
    (model : String) (usage : Raw) (kind : UsageKind) : UsageTracker Raw :=
  t.record meter (asProvider provider) model (some usage) kind true none

def recordOperation (registry : OperationPricingRegistry) (t : UsageTracker Raw)
    (operation provider mode : String) (units : Int) (reportedCostUsd : Option ℚ) :
    UsageTracker Raw :=
  if !isBillableKey operation provider || units ≤ 0 then t
  else
    t.appendOperation operation provider mode units
      (reportedOrTableCost reportedCostUsd (registry.resolve operation provider mode) units)

/-- Adds a nested agent's already-priced records, reindexed and not repriced. -/
def merge (t : UsageTracker Raw) (rollup : UsageRollup Raw) : UsageTracker Raw where
  records := t.records ++ renumber UsageRecord.withIndex (t.records.length + 1) rollup.calls
  operations := t.operations ++
    renumber OperationUsageRecord.withIndex (t.operations.length + 1) rollup.operations
  recordingCorrupted := t.recordingCorrupted || rollup.recordingIntegrity == .corrupted
  unaccountedCalls := t.unaccountedCalls + rollup.unaccountedCallCount
  records_numbered := t.records_numbered.append (by
    rw [map_index_renumber UsageRecord.callIndex_withIndex, length_renumber])
  operations_numbered := t.operations_numbered.append (by
    rw [map_index_renumber OperationUsageRecord.callIndex_withIndex, length_renumber])

@[simp] theorem merge_records (t : UsageTracker Raw) (r : UsageRollup Raw) :
    (t.merge r).records
      = t.records ++ renumber UsageRecord.withIndex (t.records.length + 1) r.calls := rfl

@[simp] theorem merge_operations (t : UsageTracker Raw) (r : UsageRollup Raw) :
    (t.merge r).operations = t.operations ++
      renumber OperationUsageRecord.withIndex (t.operations.length + 1) r.operations := rfl

/-- Folds both ledgers into a rollup; with a kind, only that kind's model calls are folded and
operations are left to the unfiltered total. -/
def rollup (t : UsageTracker Raw) (kind : Option UsageKind) : UsageRollup Raw :=
  let records := t.records.filter fun record =>
    match kind with
    | none => true
    | some kind => record.kind == kind
  let operations := if kind.isNone then t.operations else []
  let tokenCosts := records.map (·.costUsd)
  let operationCosts := operations.map (·.costUsd)
  { calls := records
    modelCallCount := records.length
    inputTokens := sumOrNone (records.map (·.usage.inputTokens))
    outputTokens := sumOrNone (records.map (·.usage.outputTokens))
    totalTokens := sumOrNone (records.map (·.usage.totalTokens))
    cachedInputTokens := sumOrNone (records.map (·.usage.cachedInputTokens))
    cacheHitRate := cacheHitRate records
    costUsd := sumOrNone (tokenCosts ++ operationCosts)
    costComplete := (!records.isEmpty || !operations.isEmpty) &&
      (tokenCosts ++ operationCosts).all Option.isSome
    operations := operations
    operationCount := operations.length
    recordingIntegrity := if t.recordingCorrupted then .corrupted else .intact
    unaccountedCallCount := t.unaccountedCalls }

def reset (_ : UsageTracker Raw) : UsageTracker Raw := {}

end UsageTracker

end VidbyteSdk.Agents.Pricing
