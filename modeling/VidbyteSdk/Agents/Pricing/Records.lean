import Mathlib.Data.NNRat.Defs
import VidbyteSdk.Lib.Numbered
import VidbyteSdk.Lib.OptionSum

/-!
# Usage records

The per-call and per-run records of `agents/pricing/records.py`. Costs are non-negative rationals
of USD. What a provider reports beyond the uniform token counts is kept in the usage's `raw` payload,
of an arbitrary type: only the provider's own cost formula reads it.
-/

namespace VidbyteSdk.Agents.Pricing

open VidbyteSdk.Lib
open scoped NNRat

inductive UsageKind where
  | generative
  | decision
  deriving DecidableEq

/-- Whether every attempted usage record actually reached the run's ledgers. -/
inductive UsageRecordingIntegrity where
  | intact
  | corrupted
  deriving DecidableEq

structure ProviderUsage (Raw : Type) where
  inputTokens : Option Nat := none
  outputTokens : Option Nat := none
  totalTokens : Option Nat := none
  cachedInputTokens : Option Nat := none
  /-- The prompt size `cache_hit_rate` divides by; providers with additive cache buckets override it. -/
  totalPromptTokens : Option Nat := none
  raw : Raw
  deriving DecidableEq

structure UsageRecord (Raw : Type) where
  callIndex : Nat
  provider : String
  model : String
  usage : ProviderUsage Raw
  costUsd : Option ℚ≥0 := none
  kind : UsageKind := .generative
  failed : Bool := false
  deriving DecidableEq

structure OperationUsageRecord where
  callIndex : Nat
  operation : String
  provider : String
  mode : String := "default"
  units : Int := 1
  costUsd : Option ℚ≥0 := none
  deriving DecidableEq

variable {Raw : Type}

/-- The record under another number; `merge` reindexes with it. -/
def UsageRecord.withIndex (n : Nat) (record : UsageRecord Raw) : UsageRecord Raw :=
  { record with callIndex := n }

def OperationUsageRecord.withIndex (n : Nat) (record : OperationUsageRecord) : OperationUsageRecord :=
  { record with callIndex := n }

@[simp] theorem UsageRecord.callIndex_withIndex (n : Nat) (r : UsageRecord Raw) :
    (r.withIndex n).callIndex = n := rfl

@[simp] theorem UsageRecord.costUsd_withIndex (n : Nat) (r : UsageRecord Raw) :
    (r.withIndex n).costUsd = r.costUsd := rfl

@[simp] theorem UsageRecord.withIndex_withIndex (n m : Nat) (r : UsageRecord Raw) :
    (r.withIndex m).withIndex n = r.withIndex n := rfl

@[simp] theorem OperationUsageRecord.callIndex_withIndex (n : Nat) (r : OperationUsageRecord) :
    (r.withIndex n).callIndex = n := rfl

@[simp] theorem OperationUsageRecord.costUsd_withIndex (n : Nat) (r : OperationUsageRecord) :
    (r.withIndex n).costUsd = r.costUsd := rfl

@[simp] theorem OperationUsageRecord.withIndex_withIndex (n m : Nat) (r : OperationUsageRecord) :
    (r.withIndex m).withIndex n = r.withIndex n := rfl

structure UsageRollup (Raw : Type) where
  calls : List (UsageRecord Raw) := []
  modelCallCount : Nat := 0
  inputTokens : Option Nat := none
  outputTokens : Option Nat := none
  totalTokens : Option Nat := none
  cachedInputTokens : Option Nat := none
  cacheHitRate : Option ℚ≥0 := none
  costUsd : Option ℚ≥0 := none
  costComplete : Bool := false
  operations : List OperationUsageRecord := []
  operationCount : Nat := 0
  recordingIntegrity : UsageRecordingIntegrity := .intact
  unaccountedCallCount : Nat := 0
  deriving DecidableEq

/-- Whether `costUsd` is the whole measured spend of this ledger. -/
def UsageRollup.costMeasured (rollup : UsageRollup Raw) : Bool :=
  rollup.recordingIntegrity == .intact && rollup.unaccountedCallCount == 0 &&
    rollup.calls.all (·.costUsd.isSome) && rollup.operations.all (·.costUsd.isSome)

end VidbyteSdk.Agents.Pricing
