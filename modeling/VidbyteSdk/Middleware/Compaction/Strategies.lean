import Mathlib.Data.List.Sort
import Mathlib.Data.Rat.Floor
import VidbyteSdk.Lib.Budgets
import VidbyteSdk.Lib.Grouping
import VidbyteSdk.Middleware.Compaction.Messages

/-!
# Compaction strategies

The strategies of `middleware/compaction/strategies.py` that select messages by whole tool exchanges, and the call
signature of `call_signature.py`. Summarizers, token counters and regular expressions are functions, and the numbers
that floats stand for are rationals.
-/

namespace VidbyteSdk.Middleware.Compaction

open VidbyteSdk.Lib
open Json (lit)

/-- `_provider_groups`: each tool call with every result right after it, and each other message alone. -/
def providerGroups : List ContextMessage → List (List ContextMessage) :=
  groupRuns ContextMessage.isToolCall ContextMessage.isToolResult

/-! ### Call signatures -/

mutual

/-- A value with the members of its mappings in the order of their keys. -/
def sortKeys : Json → Json
  | .arr items => .arr (sortKeysItems items)
  | .obj members => .obj ((sortKeysMembers members).insertionSort fun a b => a.1 ≤ b.1)
  | value => value

def sortKeysItems : List Json → List Json
  | [] => []
  | item :: items => sortKeys item :: sortKeysItems items

def sortKeysMembers : List (Text × Json) → List (Text × Json)
  | [] => []
  | (key, value) :: members => (key, sortKeys value) :: sortKeysMembers members

end

/-- `a or b`. -/
def orElse (a b : Option Json) : Option Json := if a.any Json.truthy then a else b

/-- `[value.get("name"), value.get(key)]`. -/
def callPair (key : Text) (value : Json) : Json :=
  .arr [(value.get? (lit "name")).getD .null, (value.get? key).getD .null]

/-- The tool names and arguments of the calls that a provider message makes, in order. -/
def callsOf (raw : Json) : List Json :=
  ((listOf (raw.get? (lit "tool_calls"))).filterMap fun call =>
    ((call.get? (lit "function")).filter Json.isMapping).map (callPair (lit "arguments"))) ++
  ((listOf (raw.get? (lit "content"))).filter (hasType (lit "tool_use"))).map (callPair (lit "input")) ++
  ((listOf (raw.get? (lit "parts"))).filterMap fun part =>
    ((orElse (part.get? (lit "functionCall")) (part.get? (lit "function_call"))).filter Json.isMapping).map
      (callPair (lit "args")))

/-- `tool_call_signature`. -/
def toolCallSignature (message : ContextMessage) : Option Text :=
  let signature := callsOf (message.original.getD (.obj []))
  if signature.isEmpty then if message.isToolCall then some message.content else none
  else some (Json.dumps true (sortKeys (.arr signature)))

/-- `_message_text`. -/
def messageText (message : ContextMessage) : Text :=
  let narratedCall := message.original.any fun raw =>
    (match raw.get? (lit "content") with
      | some (.str _) => true
      | some (.arr _) => true
      | _ => false) && (raw.get? (lit "tool_calls")).any Json.truthy
  if narratedCall then message.content ++ (toolCallSignature message).getD [] else message.content

/-- `_approximate_token_count`. -/
def approximateTokenCount (text : Text) : ℤ := if text.isEmpty then 0 else max 1 ⌈(text.length : ℚ) / 4⌉

/-- `_message_tokens`. -/
def messageTokens (tokenCounter : Option (Text → ℤ)) (message : ContextMessage) : ℕ :=
  (tokenCounter.getD approximateTokenCount (messageText message)).toNat

def totalTokens (tokenCounter : Option (Text → ℤ)) : List ContextMessage → ℕ :=
  totalCost (messageTokens tokenCounter)

/-! ### Duplicates -/

/-- The loop of `DeduplicateToolCallsCompaction.compact`: the pairs seen, and how many of the messages ahead are marked
for removal. -/
def dedupeFrom (seenPairs : List (Text × List Text)) (removing : ℕ) : List ContextMessage → List ContextMessage
  | [] => []
  | message :: rest =>
    let kept := if removing = 0 then [message] else []
    match toolCallSignature message with
    | none => kept ++ dedupeFrom seenPairs (removing - 1) rest
    | some signature =>
      let results := rest.takeWhile ContextMessage.isToolResult
      let pair := (signature, results.map ContextMessage.content)
      if pair ∈ seenPairs then dedupeFrom seenPairs (max removing (results.length + 1) - 1) rest
      else kept ++ dedupeFrom (pair :: seenPairs) (removing - 1) rest

/-- `DeduplicateToolCallsCompaction.compact`. -/
def deduplicateToolCalls (messages : List ContextMessage) : List ContextMessage := dedupeFrom [] 0 messages

/-! ### Summaries -/

def systemMessages (messages : List ContextMessage) : List ContextMessage :=
  messages.filter ContextMessage.isSystem

def nonSystemMessages (messages : List ContextMessage) : List ContextMessage :=
  messages.filter fun message => !message.isSystem

/-- The first groups, up to the one with which they reach `limit` messages. -/
def takeUntil (limit : ℕ) : ℕ → List (List ContextMessage) → List (List ContextMessage)
  | _, [] => []
  | count, group :: groups =>
    if count < limit then group :: takeUntil limit (count + group.length) groups else []

def summaryMessage (mode summary : Text) : ContextMessage where
  role := lit "assistant"
  content := summary
  kind := lit "summary"
  metadata := .obj [(lit "compaction", .str mode)]

/-- `SummarizeRangeCompaction.compact`. -/
def summarizeRange (summarize : List ContextMessage → Text) (keepLast : ℕ) (messages : List ContextMessage) :
    List ContextMessage :=
  let groups := providerGroups (nonSystemMessages messages)
  let recent := (takeUntil keepLast 0 groups.reverse).reverse
  let middle := (groups.take (groups.length - recent.length)).flatten
  if middle.isEmpty then messages
  else systemMessages messages ++ [summaryMessage (lit "summarize_range") (summarize middle)] ++ recent.flatten

/-- `SummarizeOldestNCompaction.compact`. -/
def summarizeOldestN (summarize : List ContextMessage → Text) (n : ℕ) (messages : List ContextMessage) :
    List ContextMessage :=
  let groups := providerGroups (nonSystemMessages messages)
  let oldest := takeUntil n 0 groups
  let rest := (groups.drop oldest.length).flatten
  if oldest.flatten.isEmpty then messages
  else systemMessages messages ++ [summaryMessage (lit "summarize_oldest_n") (summarize oldest.flatten)] ++ rest

/-! ### Traces -/

inductive TraceScope where
  | allNonSystem | oldestNGroups | oldestPercentage | middleKeepBookends
  deriving DecidableEq

inductive TracePlacement where
  | summary | systemSuffix | syntheticUser
  deriving DecidableEq

/-- The settings of `ReplaceWithTraceCompaction`, as its checks admit them. -/
structure ReplaceWithTrace where
  traceText : Text
  scope : TraceScope := .allNonSystem
  n : ℕ := 0
  percentage : ℚ := 0
  keepLastGroups : ℕ := 0
  keepLastUser : Bool := false
  keepPinned : Bool := false
  keepErrors : Bool := false
  keepActiveBranch : Option Text := none
  placement : TracePlacement := .summary
  traceMarker : Text := lit "continual_trace"
  percentage_nonneg : 0 ≤ percentage
  percentage_le_one : percentage ≤ 1

namespace ReplaceWithTrace

variable (B : Builtins) (trace : ReplaceWithTrace)

/-- `_is_pinned`. -/
def isPinned (message : ContextMessage) : Bool := (message.metadata.get? (lit "pinned")).any Json.truthy

/-- `value == text` of a value that is looked up. -/
def isText (value : Option Json) (text : Text) : Bool :=
  match value with
  | some (.str value) => value = text
  | _ => false

/-- `_is_error_result`. -/
def isErrorResult (message : ContextMessage) : Bool :=
  message.isToolResult && isText (message.metadata.get? (lit "status")) (lit "error")

/-- `_is_stale_trace`. -/
def isStaleTrace (message : ContextMessage) : Bool :=
  isText (message.metadata.get? (lit "trace_marker")) trace.traceMarker

/-- `tuple(str(item) for item in value)`; none where the value cannot be iterated. -/
def textsOf (value : Json) : Option (List Text) :=
  match value with
  | .arr items => some (items.map B.str)
  | .str text => some (text.map fun c => [c])
  | .obj members => some (members.map Prod.fst)
  | _ => none

/-- `_on_active_branch`; none where it raises. -/
def onActiveBranch (active : Text) (message : ContextMessage) : Option Bool :=
  let branch := given (orElse (message.metadata.get? (lit "branch")) (message.metadata.get? (lit "snapshot_branch")))
  (textsOf B ((message.metadata.get? (lit "branch_ancestors")).getD (.arr []))).map fun ancestors =>
    branch.all (fun branch => B.str branch = active) || decide (active ∈ ancestors)

/-- `_groups_matching`: the indices of the groups with a message that matches. -/
def groupsMatching (groups : List (List ContextMessage)) (predicate : ContextMessage → Option Bool) :
    Option (List ℕ) :=
  (groups.mapM fun (group : List ContextMessage) => group.anyM predicate).map fun found =>
    (found.zipIdx.filter fun entry => entry.1).map Prod.snd

/-- `_last_user_group`. -/
def lastUserGroup (groups : List (List ContextMessage)) : Option ℕ :=
  (groups.zipIdx.filter fun entry =>
    entry.1.any fun message => message.role = lit "user" && !message.isToolResult).getLast?.map Prod.snd

/-- `_protected_group_indices`. -/
def protectedGroupIndices (groups : List (List ContextMessage)) : Option (List ℕ) := do
  let last := (List.range groups.length).drop (groups.length - trace.keepLastGroups)
  let lastUser := if trace.keepLastUser then (lastUserGroup groups).toList else []
  let pinned ← if trace.keepPinned then groupsMatching groups fun message => some (isPinned message) else some []
  let errors ← if trace.keepErrors then groupsMatching groups fun message => some (isErrorResult message) else some []
  let branch ← match trace.keepActiveBranch with
    | some active => groupsMatching groups (onActiveBranch B active)
    | none => some []
  return last ++ lastUser ++ pinned ++ errors ++ branch

/-- `_select_by_scope`. -/
def selectByScope (candidates : List ℕ) : List ℕ :=
  match trace.scope with
  | .oldestNGroups => candidates.take trace.n
  | .oldestPercentage => candidates.take ⌈(candidates.length : ℚ) * trace.percentage⌉.toNat
  | .middleKeepBookends => if 1 < candidates.length then candidates.drop 1 else []
  | .allNonSystem => candidates

/-- `_replaced_group_indices`. -/
def replacedGroupIndices (groups : List (List ContextMessage)) : Option (List ℕ) := do
  let «protected» ← trace.protectedGroupIndices B groups
  let candidates := (List.range groups.length).filter fun index => index ∉ «protected»
  let stale ← groupsMatching groups fun message => some (trace.isStaleTrace message)
  return trace.selectByScope candidates ++ stale

/-- `_build_trace_message`. -/
def buildTraceMessage (replacedCount : ℕ) : ContextMessage :=
  let metadata := Json.obj [(lit "compaction", .str (lit "replace_with_trace")),
    (lit "trace_marker", .str trace.traceMarker), (lit "original_count", .int replacedCount)]
  match trace.placement with
  | .syntheticUser =>
    { role := lit "user"
      content := lit "Continual trace (state so far):\n" ++ trace.traceText
      kind := lit "message"
      metadata := metadata }
  | .systemSuffix => { role := lit "system", content := trace.traceText, kind := lit "summary", metadata := metadata }
  | .summary => { role := lit "assistant", content := trace.traceText, kind := lit "summary", metadata := metadata }

/-- `_assemble_body`: the groups, each with whether it is replaced, and the trace that is not placed yet. -/
def assembleBody : List (List ContextMessage × Bool) → Option ContextMessage → List ContextMessage
  | [], traceMessage => traceMessage.toList
  | (group, replaced) :: groups, traceMessage =>
    if replaced then traceMessage.toList ++ assembleBody groups none else group ++ assembleBody groups traceMessage

/-- `ReplaceWithTraceCompaction.compact`; none where it raises. -/
def compact (messages : List ContextMessage) : Option (List ContextMessage) :=
  if Text.isBlank trace.traceText then some messages
  else
    let groups := providerGroups (nonSystemMessages messages)
    (trace.replacedGroupIndices B groups).map fun replaced =>
      if !groups.isEmpty && replaced.isEmpty then messages
      else
        let marked := groups.zipIdx.map fun entry => (entry.1, decide (entry.2 ∈ replaced))
        let traceMessage := trace.buildTraceMessage ((marked.filter Prod.snd).map fun entry => entry.1.length).sum
        if trace.placement = .systemSuffix then
          systemMessages messages ++ [traceMessage] ++ assembleBody marked none
        else systemMessages messages ++ assembleBody marked (some traceMessage)

end ReplaceWithTrace

/-! ### Budgets -/

/-- `TrimToTokenBudgetCompaction.compact`. -/
def trimToTokenBudget (tokenCounter : Option (Text → ℤ)) (maxTokens : ℕ) (preserveSystem : Bool)
    (messages : List ContextMessage) : List ContextMessage :=
  trimToBudget (fun message => preserveSystem && message.isSystem) (messageTokens tokenCounter) maxTokens messages

def isSystemGroup : List ContextMessage → Bool := heads ContextMessage.isSystem

/-- `_trim_groups_to_tokens`. -/
def trimGroupsToTokens (tokenCounter : Option (Text → ℤ)) (maxTokens : ℕ) (groups : List (List ContextMessage)) :
    List (List ContextMessage) :=
  trimToBudget isSystemGroup (totalTokens tokenCounter) maxTokens groups

/-- The groups with a member at or after `firstKept`; `offset` messages stand before them. -/
def newestGroups (firstKept : ℕ) : ℕ → List (List ContextMessage) → List (List ContextMessage)
  | _, [] => []
  | offset, group :: groups =>
    if firstKept < offset + group.length then group :: newestGroups firstKept (offset + group.length) groups
    else newestGroups firstKept (offset + group.length) groups

/-- `TrimWithProviderBoundariesCompaction.compact`. -/
def trimWithProviderBoundaries (tokenCounter : Option (Text → ℤ)) (maxMessages maxTokens : Option ℕ)
    (messages : List ContextMessage) : List ContextMessage :=
  let groups := providerGroups messages
  let counted := maxMessages.elim groups fun maxMessages => newestGroups (messages.length - maxMessages) 0 groups
  let trimmed := maxTokens.elim counted fun maxTokens => trimGroupsToTokens tokenCounter maxTokens counted
  trimmed.flatten

/-! ### Pruning -/

/-- `[A-Za-z0-9_]`. -/
def isTermChar (c : CodePoint) : Bool :=
  c.isDigit || (0x41 ≤ c.val && c.val ≤ 0x5A) || (0x61 ≤ c.val && c.val ≤ 0x7A) || c = 0x5F

def lowerTermChar (c : CodePoint) : CodePoint :=
  if 0x41 ≤ c.val ∧ c.val ≤ 0x5A then Fin.ofNat _ (c.val + 0x20) else c

/-- `_message_terms`. -/
def messageTerms (message : ContextMessage) : List Text :=
  ((((messageText message).splitOnP fun c => !isTermChar c).filter fun term => !term.isEmpty).map
    (List.map lowerTermChar)).dedup

/-- The settings of `SelectiveContextPruningCompaction`; a pattern is the test whether it is found. -/
structure SelectivePruning where
  removeEmpty : Bool := true
  removeDuplicates : Bool := true
  patterns : List (Text → Bool) := []
  minUniqueTerms : ℕ := 0

namespace SelectivePruning

variable (pruning : SelectivePruning)

def isLowSignal (message : ContextMessage) : Bool :=
  (pruning.removeEmpty && Text.isBlank message.content) || pruning.patterns.any (fun pattern => pattern message.content) ||
    (pruning.minUniqueTerms ≠ 0 && decide ((messageTerms message).length < pruning.minUniqueTerms))

/-- The loop of `compact`: the keys seen. -/
def pruneFrom (seen : List (Text × Text × Text)) : List ContextMessage → List ContextMessage
  | [] => []
  | message :: rest =>
    let key := (message.role, message.kind, message.content)
    if message.isSystem || message.isToolCall || message.isToolResult then message :: pruneFrom seen rest
    else if (pruning.removeDuplicates && decide (key ∈ seen)) || pruning.isLowSignal message then pruneFrom seen rest
    else message :: pruneFrom (key :: seen) rest

/-- `SelectiveContextPruningCompaction.compact`. -/
def compact (messages : List ContextMessage) : List ContextMessage := pruning.pruneFrom [] messages

end SelectivePruning

/-! ### Salience -/

structure Span where
  start : ℕ
  group : List ContextMessage

def spansFrom : ℕ → List (List ContextMessage) → List Span
  | _, [] => []
  | start, group :: groups => ⟨start, group⟩ :: spansFrom (start + group.length) groups

/-- The settings of `SalienceScoreEvictionCompaction`, with `float(value)` of an explicit salience, where that raises
nothing, and `str.lower`. -/
structure SalienceEviction where
  maxMessages : ℕ
  maxTokens : Option ℕ := none
  tokenCounter : Option (Text → ℤ) := none
  floatOf : Json → Option ℚ
  lower : Text → Text

namespace SalienceEviction

variable (B : Builtins) (eviction : SalienceEviction)

def baseScore (message : ContextMessage) : Option ℚ :=
  (eviction.floatOf ((message.metadata.get? (lit "salience")).filter Json.truthy |>.getD (.int 0))).map fun salience =>
    salience + (if (message.metadata.get? (lit "pinned")).any Json.truthy then 1000 else 0) +
      (if message.isSystem then 10000 else 0) + (if message.kind = lit "summary" then 100 else 0) +
      (if message.isToolCall || message.isToolResult then -10 else 0) +
      (if message.isToolResult ∧
          eviction.lower (B.str ((message.metadata.get? (lit "status")).getD (.str []))) = lit "error" then 20 else 0)

/-- `_score`. -/
def score (message : ContextMessage) (index total : ℕ) : Option ℚ :=
  (eviction.baseScore B message).map fun base => base + index / max 1 total

def spanScore (total : ℕ) (span : Span) : Option ℚ :=
  (span.group.zipIdx.mapM fun entry => eviction.score B entry.1 (span.start + entry.2) total).bind List.max?

/-- The order of `sorted`: higher scores first, then earlier spans. -/
def RanksBefore (a b : ℚ × Span) : Prop := b.1 < a.1 ∨ a.1 = b.1 ∧ a.2.start ≤ b.2.start

instance : DecidableRel RanksBefore := fun _ _ => inferInstanceAs (Decidable (_ ∨ _))

def isExempt (span : Span) : Bool := span.group.any ContextMessage.isSystem

def cost (span : Span) : ℕ := totalTokens eviction.tokenCounter span.group

/-- The spans that are kept, in the order of their rank; `count` messages are kept already. -/
def select : ℕ → Option ℤ → List Span → List Span
  | _, _, [] => []
  | count, remaining, span :: spans =>
    if eviction.maxMessages < count + span.group.length then select count remaining spans
    else if remaining.any (fun remaining => decide (remaining < (eviction.cost span : ℤ))) && !isExempt span then
      select count remaining spans
    else span :: select (count + span.group.length) (remaining.map fun remaining => remaining - eviction.cost span) spans

def ranked (messages : List ContextMessage) : Option (List Span) :=
  ((spansFrom 0 (providerGroups messages)).mapM fun span =>
    (eviction.spanScore B messages.length span).map fun score => (score, span)).map fun scored =>
      (scored.insertionSort RanksBefore).map Prod.snd

/-- `SalienceScoreEvictionCompaction.compact`; none where it raises. -/
def compact (messages : List ContextMessage) : Option (List ContextMessage) :=
  (eviction.ranked B messages).map fun ranked =>
    let kept := (eviction.select 0 (eviction.maxTokens.map Nat.cast) ranked).map Span.start
    ((spansFrom 0 (providerGroups messages)).filter fun span => decide (span.start ∈ kept)).flatMap Span.group

end SalienceEviction

end VidbyteSdk.Middleware.Compaction
