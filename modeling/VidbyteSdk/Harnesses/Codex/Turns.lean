import Mathlib.Algebra.Ring.Int.Defs
import VidbyteSdk.Lib.Json

/-!
# Codex turns and their usage

The live turns of a Codex host and the ledgers of its threads, after `harnesses/native/codex/turns.py`. A turn object
is its place in `CodexTurnRegistry.turns`. The records of openai-codex are read for what the code reads: a breakdown is
what its `model_dump` gives, the counters that are not `None`. What a snapshot is built from, besides its status, what
a turn is priced as, and the tracker that prices it are parameters.
-/

namespace VidbyteSdk.Harnesses.Codex

open Lib (Text)

/-! ### Counters -/

/-- `CODEX_HOST_USAGE_COUNTERS` -/
inductive UsageCounter
  | inputTokens
  | cachedInputTokens
  | cacheWriteInputTokens
  | outputTokens
  | reasoningOutputTokens
  | totalTokens
  deriving DecidableEq

/-- A `collections.Counter` over the usage counters: the counts of the names it has. -/
abbrev Counter := UsageCounter → Option ℤ

namespace Counter

variable (counter other : Counter)

/-- `counter[name]`: a name it does not have counts zero. -/
def count (name : UsageCounter) : ℤ := (counter name).getD 0

/-- `counter.subtract(other)` -/
def subtract : Counter := fun name =>
  match other name with
  | none => counter name
  | some n => some (counter.count name - n)

/-- `counter - other` -/
def minus : Counter := fun name =>
  match counter name with
  | some n => if 0 < n - other.count name then some (n - other.count name) else none
  | none => if other.count name < 0 then some (0 - other.count name) else none

theorem count_subtract (name : UsageCounter) :
    (counter.subtract other).count name = counter.count name - other.count name := by
  unfold count subtract
  cases other name with
  | none => exact (sub_zero _).symm
  | some n => rfl

theorem count_minus (name : UsageCounter) :
    (counter.minus other).count name = max 0 (counter.count name - other.count name) := by
  have hminus : (counter.minus other).count name = (counter.minus other name).getD 0 := rfl
  have hcount : counter.count name = (counter name).getD 0 := rfl
  rw [hminus, hcount, minus]
  cases counter name with
  | none =>
    rw [Option.getD_none]
    dsimp only
    split
    · next hneg =>
      rw [Option.getD_some]
      omega
    · next hneg =>
      rw [Option.getD_none]
      omega
  | some n =>
    rw [Option.getD_some]
    dsimp only
    split
    · next hpos =>
      rw [Option.getD_some]
      omega
    · next hpos =>
      rw [Option.getD_none]
      omega

end Counter

/-! ### Usage -/

/-- A usage report: `ThreadTokenUsage`. -/
structure ThreadTokenUsage where
  last : Counter
  total : Counter
  modelContextWindow : Option ℤ

structure CodexUsage where
  inputTokens : ℤ
  cachedInputTokens : ℤ
  cacheWriteInputTokens : ℤ
  outputTokens : ℤ
  reasoningOutputTokens : ℤ
  totalTokens : ℤ
  modelContextWindow : ℤ
  deriving DecidableEq

namespace CodexUsage

/-- `CodexUsage(**counter, **window)` -/
def ofCounter (counter : Counter) (window : Option ℤ) : CodexUsage where
  inputTokens := counter.count .inputTokens
  cachedInputTokens := counter.count .cachedInputTokens
  cacheWriteInputTokens := counter.count .cacheWriteInputTokens
  outputTokens := counter.count .outputTokens
  reasoningOutputTokens := counter.count .reasoningOutputTokens
  totalTokens := counter.count .totalTokens
  modelContextWindow := window.getD 0

/-- `CodexUsage()` -/
def zero : CodexUsage := ofCounter (fun _ => none) none

/-- `getattr(usage, name)` -/
def get (usage : CodexUsage) : UsageCounter → ℤ
  | .inputTokens => usage.inputTokens
  | .cachedInputTokens => usage.cachedInputTokens
  | .cacheWriteInputTokens => usage.cacheWriteInputTokens
  | .outputTokens => usage.outputTokens
  | .reasoningOutputTokens => usage.reasoningOutputTokens
  | .totalTokens => usage.totalTokens

@[simp] theorem get_ofCounter (counter : Counter) (window : Option ℤ) (name : UsageCounter) :
    (ofCounter counter window).get name = counter.count name := by
  cases name <;> rfl

@[simp] theorem get_zero (name : UsageCounter) : zero.get name = 0 := get_ofCounter _ _ name

end CodexUsage

/-! ### Turns -/

inductive CodexTurnStatus
  | running
  | completed
  | interrupted
  | failed
  deriving DecidableEq

inductive CodexGoalStatus
  | none
  | active
  | paused
  | blocked
  | usageLimited
  | budgetLimited
  | complete
  deriving DecidableEq

/-- `status in CODEX_GOAL_TERMINAL_STATUSES` -/
def CodexGoalStatus.isTerminal : CodexGoalStatus → Bool
  | .none | .active => false
  | _ => true

inductive Payload
  | itemCompleted
  | tokenUsageUpdated (usage : ThreadTokenUsage)
  | turnStarted
  | turnCompleted (status : CodexTurnStatus)
  | goalUpdated (status : CodexGoalStatus)
  | goalCleared
  | other

structure CodexGoalFinishRule where
  status : CodexGoalStatus := .none
  cleared : Bool := false
  active : Bool := false
  lastCompleted : Option CodexTurnStatus := none
  failed : Option CodexTurnStatus := none
  mismatch : Bool := false

/-- `_completed` -/
def CodexGoalFinishRule.completed (rule : CodexGoalFinishRule) (status : CodexTurnStatus) (ended : Bool) :
    CodexGoalFinishRule × Bool :=
  let mismatch := status = .completed && rule.status = .none && !rule.cleared
  let failed := if status = .failed then some status else rule.failed
  ({ rule with active := false, lastCompleted := some status, failed := failed, mismatch := mismatch },
    status = .interrupted || ended || mismatch)

def CodexGoalFinishRule.process (rule : CodexGoalFinishRule) (payload : Payload) : CodexGoalFinishRule × Bool :=
  match payload with
  | .turnStarted => ({ rule with active := true }, false)
  | _ =>
    let rule :=
      match payload with
      | .goalUpdated status => { rule with status := status, cleared := rule.cleared && status ≠ .active }
      | .goalCleared => { rule with cleared := true }
      | _ => rule
    let ended := rule.cleared || rule.status.isTerminal
    match payload with
    | .turnCompleted status => rule.completed status ended
    | _ => (rule, ended && !rule.active && rule.lastCompleted.isSome)

inductive TurnKind
  | plain
  | review
  | goal (rule : CodexGoalFinishRule)

structure CodexTurnHandle where
  threadId : Text
  turnId : Text
  deriving DecidableEq

/-- `pricing` is what the turn is priced as. -/
structure CodexLiveTurn (P : Type) where
  handle : CodexTurnHandle
  maxOutputTokens : Option ℤ
  pricing : P
  kind : TurnKind
  firstUsage : Option ThreadTokenUsage := none
  latestUsage : Option ThreadTokenUsage := none
  completed : Option CodexTurnStatus := none
  stopSent : Bool := false
  snapshot : Option CodexTurnStatus := none

namespace CodexLiveTurn

variable {P : Type} (turn : CodexLiveTurn P)

/-- `ends` -/
def ends (payload : Payload) : TurnKind × Bool :=
  match turn.kind with
  | .goal rule => ((rule.process payload).map .goal id)
  | kind =>
    match payload with
    | .turnCompleted _ => (kind, true)
    | _ => (kind, false)

def observe (payload : Payload) : CodexLiveTurn P × Bool :=
  let (kind, ended) := turn.ends payload
  let turn :=
    match payload with
    | .tokenUsageUpdated usage =>
      { turn with firstUsage := turn.firstUsage.or (some usage), latestUsage := some usage }
    | .turnCompleted status => { turn with completed := some status }
    | _ => turn
  ({ turn with kind := kind }, ended)

def usageDelta : Option CodexUsage :=
  match turn.firstUsage, turn.latestUsage with
  | some first, some latest =>
    let before := first.total.subtract first.last
    some (.ofCounter (latest.total.minus before) latest.modelContextWindow)
  | _, _ => none

def overCap : Bool :=
  match turn.maxOutputTokens, turn.usageDelta with
  | some cap, some delta => !turn.stopSent && cap < delta.outputTokens
  | _, _ => false

end CodexLiveTurn

/-! ### The registry -/

structure CodexTurnUsage where
  turnId : Text
  status : CodexTurnStatus
  usage : CodexUsage
  usageAvailable : Bool
  deriving DecidableEq

structure CodexThreadUsage (C : Type) where
  threadId : Text
  total : CodexUsage
  turns : List CodexTurnUsage
  costUsd : C
  costComplete : Bool

/-- What prices a thread's turns: an empty tracker, the record of one turn, and the rollup's cost and completeness. -/
structure UsageTracking (P T C : Type) where
  tracker : T
  recordUsage : T → P → CodexUsage → T
  rollup : T → C × Bool

structure CodexTurnRegistry (P T : Type) where
  turns : List (CodexLiveTurn P)
  running : Text → Option ℕ
  trackers : Text → Option T
  ledgers : Text → Option (List CodexTurnUsage)

/-- What happens to a registry: a turn is tracked, a notification reaches the host (`stopped` is what the connection
says of itself), and a turn is ended from outside: a death, a close, a review read back. -/
inductive Event (P : Type)
  | track (handle : CodexTurnHandle) (maxOutputTokens : Option ℤ) (pricing : P) (kind : TurnKind)
  | note (turn : ℕ) (payload : Payload) (stopped : Bool)
  | finish (turn : ℕ) (status : CodexTurnStatus)

namespace CodexTurnRegistry

variable {P T C : Type} (tracking : UsageTracking P T C) (registry : CodexTurnRegistry P T)

def empty : CodexTurnRegistry P T := ⟨[], fun _ => none, fun _ => none, fun _ => none⟩

/-- `_add` -/
def add (turn : CodexLiveTurn P) : CodexTurnRegistry P T :=
  let threadId := turn.handle.threadId
  { turns := registry.turns ++ [turn]
    running := Function.update registry.running threadId (some registry.turns.length)
    trackers := Function.update registry.trackers threadId (registry.trackers threadId <|> some tracking.tracker)
    ledgers := Function.update registry.ledgers threadId (registry.ledgers threadId <|> some []) }

def entry (turn : CodexLiveTurn P) (status : CodexTurnStatus) : CodexTurnUsage where
  turnId := turn.handle.turnId
  status := status
  usage := turn.usageDelta.getD .zero
  usageAvailable := turn.usageDelta.isSome

/-- `_record` -/
def record (i : ℕ) (turn : CodexLiveTurn P) (status : CodexTurnStatus) : CodexTurnRegistry P T :=
  let threadId := turn.handle.threadId
  { registry with
    running :=
      if registry.running threadId = some i then Function.update registry.running threadId none else registry.running
    ledgers := Function.update registry.ledgers threadId ((registry.ledgers threadId).map (· ++ [entry turn status]))
    trackers :=
      match turn.usageDelta with
      | none => registry.trackers
      | some delta =>
        Function.update registry.trackers threadId
          ((registry.trackers threadId).map fun tracker => tracking.recordUsage tracker turn.pricing delta) }

/-- `finish`: a turn ends once. -/
def finish (i : ℕ) (status : CodexTurnStatus) : CodexTurnRegistry P T :=
  match registry.turns[i]? with
  | none => registry
  | some turn =>
    if turn.snapshot.isSome then registry
    else
      let ended := { turn with snapshot := some status }
      record tracking { registry with turns := registry.turns.set i ended } i ended status

/-- `_on_turn_event`; `responses` gives the status of the snapshot of a turn that its notifications end. -/
def onTurnEvent (responses : CodexLiveTurn P → CodexTurnStatus) (i : ℕ) (payload : Payload) (stopped : Bool) :
    CodexTurnRegistry P T :=
  match registry.turns[i]? with
  | none => registry
  | some turn =>
    if turn.snapshot.isSome then registry
    else
      let (turn, ended) := turn.observe payload
      let turn := if turn.overCap && !stopped then { turn with stopSent := true } else turn
      let registry := { registry with turns := registry.turns.set i turn }
      match ended, turn.kind with
      | false, _ | true, .review => registry
      | true, _ => finish tracking registry i (responses turn)

def step (responses : CodexLiveTurn P → CodexTurnStatus) : Event P → CodexTurnRegistry P T
  | .track handle cap pricing kind => add tracking registry ⟨handle, cap, pricing, kind, none, none, none, false, none⟩
  | .note i payload stopped => onTurnEvent tracking registry responses i payload stopped
  | .finish i status => finish tracking registry i status

def run (responses : CodexLiveTurn P → CodexTurnStatus) (events : List (Event P)) : CodexTurnRegistry P T :=
  events.foldl (fun registry event => step tracking registry responses event) empty

/-- The sum that `usage` makes of a ledger. -/
def totalOf (ledger : List CodexTurnUsage) : Counter :=
  ledger.foldl (fun total entry name => some (total.count name + entry.usage.get name)) fun _ => none

def usage (threadId : Text) : Option (CodexThreadUsage C) :=
  match registry.ledgers threadId, registry.trackers threadId with
  | some ledger, some tracker =>
    let (cost, complete) := tracking.rollup tracker
    some ⟨threadId, .ofCounter (totalOf ledger) none, ledger, cost, complete && ledger.all (·.usageAvailable)⟩
  | _, _ => none

theorem count_totalOf (ledger : List CodexTurnUsage) (name : UsageCounter) :
    (totalOf ledger).count name = (ledger.map fun entry => entry.usage.get name).sum := by
  have hfold (start : Counter) : (ledger.foldl
      (fun total entry name => some (total.count name + entry.usage.get name)) start).count name =
        start.count name + (ledger.map fun entry => entry.usage.get name).sum := by
    induction ledger generalizing start with
    | nil => exact (add_zero _).symm
    | cons entry ledger ih =>
      rw [List.foldl_cons, ih, List.map_cons, List.sum_cons, ← add_assoc]
      rfl
  exact (hfold _).trans (zero_add _)

end CodexTurnRegistry

end VidbyteSdk.Harnesses.Codex
