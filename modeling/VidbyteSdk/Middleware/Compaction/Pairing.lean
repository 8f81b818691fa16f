import Mathlib.Data.Finset.Basic
import VidbyteSdk.Middleware.Compaction.Messages

/-!
# Calls and their results

The pairing repair of `ContextCompactionEngine`: `_tool_pairing_tags` says which messages are call turns and which are
results, and `_repair_tool_pairing` keeps a result only after its call turn, and a call turn only with all its results.
-/

namespace VidbyteSdk.Middleware.Compaction

open VidbyteSdk.Lib
open Json (lit)

variable (B : Builtins)

inductive TurnRole where
  | call | result
  deriving DecidableEq

/-- A tag of `_tool_pairing_tags`. -/
structure Tag where
  role : Option TurnRole := none
  ids : Option (Finset Text) := none
  -- how many function parts there are
  parts : ℕ := 0

/-- `frozenset(str(i) for i in ids) if ids and all(i is not None for i in ids) else None`. -/
def idSet (ids : List (Option Json)) : Option (Finset Text) :=
  if ids ≠ [] ∧ ids.all (fun value => (given value).isSome) = true then
    some ((ids.filterMap fun value => value).map B.str).toFinset
  else none

def countParts (parts : List Json) (keys : List Text) : ℕ := parts.countP fun part => keys.any part.has

def pairingTag (message : ContextMessage) : Tag :=
  let raw := message.original.getD (.obj [])
  let blocks := (listOf (raw.get? (lit "content"))).filter Json.isMapping
  let parts := listOf (raw.get? (lit "parts"))
  let calls := listOf (raw.get? (lit "tool_calls"))
  if message.isToolResult then
    let ids := if raw.has (lit "tool_call_id") then [raw.get? (lit "tool_call_id")]
      else (blocks.filter (hasType (lit "tool_result"))).map fun block => block.get? (lit "tool_use_id")
    { role := some .result
      ids := idSet B ids
      parts := countParts parts [lit "functionResponse", lit "function_response"] }
  else if !calls.isEmpty || blocks.any (hasType (lit "tool_use")) || parts.any isFunctionCallPart then
    let ids := calls.map (fun call => call.get? (lit "id")) ++
      (blocks.filter (hasType (lit "tool_use"))).map fun block => block.get? (lit "id")
    { role := some .call
      ids := idSet B ids
      parts := countParts parts [lit "functionCall", lit "function_call"] }
  else { parts := countParts parts [lit "functionCall", lit "function_call"] }

/-- The integer under `provider_index`. -/
def providerIndex (message : ContextMessage) : Option ℤ :=
  match message.metadata.get? (lit "provider_index") with
  | some (.int index) => some index
  | some (.bool value) => some value.toInt
  | _ => none

/-! ### The repair -/

/-- Where the repair stands: what it kept, and the open call turn. -/
structure Repair where
  kept : List ContextMessage := []
  -- how many messages are kept before the open call turn
  callAt : Option ℕ := none
  wanted : Option (Finset Text) := none
  answered : Finset Text := ∅
  calls : ℕ := 0
  responses : ℕ := 0

namespace Repair

variable (state : Repair)

/-- A result without ids, or of a turn without ids, has to stand where it stood in the history. -/
def isAdjacent (message : ContextMessage) (ids : Option (Finset Text)) : Bool :=
  (state.wanted.isSome && ids.isSome) ||
    match state.kept.getLast?.bind providerIndex, providerIndex message with
    | some before, some position => position = before + 1
    | _, _ => true

def isWanted (ids : Option (Finset Text)) : Bool :=
  match state.wanted, ids with
  | some wanted, some ids => decide (ids ⊆ wanted \ state.answered)
  | _, _ => true

def result (message : ContextMessage) (tag : Tag) : Repair :=
  if state.callAt.isSome && state.isAdjacent message tag.ids && state.isWanted tag.ids then
    { state with
      kept := state.kept ++ [message]
      answered := state.answered ∪ tag.ids.getD ∅
      responses := state.responses + tag.parts }
  else state

def isOpen (callAt : ℕ) : Bool :=
  state.kept.length = callAt + 1 ||
    match state.wanted with
    | some wanted => decide (state.answered ≠ wanted)
    | none => 0 < state.calls && state.calls ≠ state.responses

def closed : List ContextMessage :=
  match state.callAt with
  | some callAt => if state.isOpen callAt then state.kept.take callAt else state.kept
  | none => state.kept

def turn (message : ContextMessage) (tag : Tag) : Repair where
  kept := state.closed ++ [message]
  callAt := if tag.role = some .call then some state.closed.length else none
  wanted := tag.ids
  calls := tag.parts

def step (message : ContextMessage) : Repair :=
  let tag := pairingTag B message
  if tag.role = some .result then state.result message tag else state.turn message tag

end Repair

/-- `_repair_tool_pairing`, with the tags of the messages. -/
def repairToolPairing (messages : List ContextMessage) : List ContextMessage :=
  (messages.foldl (Repair.step B) {}).closed

end VidbyteSdk.Middleware.Compaction
