import Mathlib.Data.List.Sort
import Mathlib.Data.String.Basic
import VidbyteSdk.Lib.Prog
import VidbyteSdk.Lib.Upsert

/-!
# The checkpoint store

The records of `lib/dataclasses/sessions.py` and the shared store behavior of
`BaseSessionStore` over its raw primitives (`sessions/store.py`), with the primitives of the
in-memory store and of the database stores (rows keyed by checkpoint id) and of the file store (one
file for each session, sequence number and id).

Any write may also fail: `Host.faults` says which of the next writes do, and every theorem quantifies
over it. The clock counts the readings of the time and of `uuid4`.
-/

namespace VidbyteSdk.Sessions

open VidbyteSdk.Lib

/-! ### Records -/

inductive SessionStatus where
  | active | completed | interrupted | failed
  deriving DecidableEq

def SessionStatus.value : SessionStatus → String
  | active => "active"
  | completed => "completed"
  | interrupted => "interrupted"
  | failed => "failed"

/-- Snapshot of an agent's resumable state: the fields the sessions read, and the others together.
`J` is the type of JSON-like values. -/
structure RunState (J : Type) where
  agentName : String
  history : List J
  fields : J
  deriving DecidableEq

/-- One node in a session's append-only checkpoint DAG. -/
structure Checkpoint (J : Type) where
  id : String
  sessionId : String
  parentId : Option String
  seq : Int
  createdAt : String
  runState : RunState J
  label : String := ""
  status : SessionStatus := .active
  traceArtifact : Option J := none
  traceSummary : Option J := none
  traceEvents : Option (List J) := none
  deriving DecidableEq

/-- Per-session head pointer, lineage, and listing metadata. -/
structure SessionMeta where
  sessionId : String
  headId : Option String
  parentSessionId : Option String
  agentName : String
  status : SessionStatus
  createdAt : String
  updatedAt : String
  tags : List String := []
  deriving DecidableEq

/-- The exceptions of the session package; `other` is any exception of a caller's or an agent's code. -/
inductive SessionException where
  | session (message : String)
  | sessionNotFound (message : String)
  | checkpointNotFound (message : String)
  | store (message : String)
  | serialization (message : String)
  | version (message : String)
  | other (message : String)
  deriving DecidableEq

/-! ### Raw primitives -/

inductive Backend where
  | keyed
  | file
  deriving DecidableEq

variable {J : Type}

def Backend.slot : Backend → Checkpoint J → Option (String × Int) × String
  | .keyed, c => (none, c.id)
  | .file, c => (some (c.sessionId, c.seq), c.id)

/-- True when the value is one plain file name: no separators, drive, NUL, `.` or `..`. -/
def isPlainSegment (value : String) : Bool :=
  !(value ∈ ["", ".", ".."]) && value.toList.all (fun c => c ∉ ['/', '\\', '\x00']) &&
    !(value.toList[1]? == some ':')

structure Store (J : Type) where
  backend : Backend
  checkpoints : List (Checkpoint J) := []
  metas : List SessionMeta := []
  deriving DecidableEq

namespace Store

def withCheckpoint (st : Store J) (c : Checkpoint J) : Store J :=
  { st with checkpoints := upsert st.backend.slot c st.checkpoints }

def withMeta (st : Store J) (m : SessionMeta) : Store J :=
  { st with metas := upsert SessionMeta.sessionId m st.metas }

def without (st : Store J) (id : String) : Store J :=
  { st with checkpoints := st.checkpoints.filter (·.id ≠ id) }

/-- `_read_checkpoint`. -/
def readCheckpoint (st : Store J) (id : String) : Option (Checkpoint J) :=
  st.checkpoints.find? (·.id = id)

/-- `_read_session_checkpoints`. -/
def readSessionCheckpoints (st : Store J) (sessionId : String) : List (Checkpoint J) :=
  st.checkpoints.filter (·.sessionId = sessionId)

/-- `_read_meta`. -/
def readMeta (st : Store J) (sessionId : String) : Option SessionMeta :=
  st.metas.find? (·.sessionId = sessionId)

/-- Whether the backend refuses to write a checkpoint: the file store takes plain names only. -/
def refusesCheckpoint (st : Store J) (c : Checkpoint J) : Bool :=
  st.backend = .file && !(isPlainSegment c.sessionId && isPlainSegment c.id)

def refusesMeta (st : Store J) (m : SessionMeta) : Bool :=
  st.backend = .file && !isPlainSegment m.sessionId

/-- All checkpoints of a session ordered by `seq`. -/
def history (st : Store J) (sessionId : String) : List (Checkpoint J) :=
  (st.readSessionCheckpoints sessionId).mergeSort fun c d => decide (c.seq ≤ d.seq)

/-- The current head checkpoint of a session, or `none` when empty. -/
def head (st : Store J) (sessionId : String) : Option (Checkpoint J) :=
  match st.readMeta sessionId with
  | none => none
  | some m =>
    match m.headId with
    | none => none
    | some id => st.readCheckpoint id

def nextSeq (st : Store J) (sessionId : String) : Int :=
  (((st.readSessionCheckpoints sessionId).map (·.seq)).max?.getD (-1)) + 1

/-- The checkpoints `prune` may delete, in deletion order: off the head chain first, oldest first. -/
def removable (checkpoints : List (Checkpoint J)) (headId : Option String)
    (headChain : List String) : List (Checkpoint J) :=
  (checkpoints.filter fun c => some c.id ≠ headId).mergeSort fun c d =>
    if c.id ∈ headChain ↔ d.id ∈ headChain then decide (c.seq ≤ d.seq)
    else decide (d.id ∈ headChain)

/-- The ids from the head to the oldest stored ancestor. Each pass of the loop adds an id of
`checkpoints` that the chain lacked, so `fuel` bounds the passes by their number. -/
def headChain (checkpoints : List (Checkpoint J)) : (fuel : Nat) → (cursor : Option String) →
    (chain : List String) → List String
  | 0, _, chain => chain
  | _, none, chain => chain
  | fuel + 1, some id, chain =>
    if id ∈ chain then chain
    else
      -- a later row of an id hides an earlier one in the source's dictionary
      match checkpoints.reverse.find? (·.id = id) with
      | none => chain
      | some c => headChain checkpoints fuel c.parentId (id :: chain)

/-- The checkpoints `prune` deletes. -/
def pruned (st : Store J) (sessionId : String) (keep : Int) : List (Checkpoint J) :=
  let headId := (st.readMeta sessionId).bind (·.headId)
  let checkpoints := st.history sessionId
  let candidates := removable checkpoints headId (headChain checkpoints checkpoints.length headId [])
  let reserved : Int := if headId.any (· ≠ "") then 1 else 0
  let excess := (candidates.length : Int) - max (keep - reserved) 0
  candidates.take excess.toNat

/-- The metadata that points a session's head at a just-written checkpoint, new where there is none. -/
def advancedMeta (st : Store J) (c : Checkpoint J) (now : String) : SessionMeta :=
  match st.readMeta c.sessionId with
  | none =>
    { sessionId := c.sessionId, headId := some c.id, parentSessionId := none
      agentName := c.runState.agentName, status := c.status, createdAt := now, updatedAt := now }
  | some m => { m with headId := some c.id, status := c.status, updatedAt := now }

end Store

/-! ### The store's operations -/

/-- What the standard library gives a process: `uuid4().hex` never repeats and holds no separator. -/
structure Environment where
  hex : Nat → String
  hex_injective : Function.Injective hex
  hex_plain : ∀ n, ∀ c ∈ (hex n).toList, c ∉ ['/', '\\', '\x00']
  now : Nat → String

/-- A store with its process: the clock and the outcomes of the next writes (`true` fails). -/
structure Host (J : Type) where
  store : Store J
  clock : Nat := 0
  faults : List Bool := []
  deriving DecidableEq

abbrev StoreM (J α : Type) : Type := Prog (Host J) SessionException α

namespace StoreM

def tick : StoreM J Nat := do
  let h ← Prog.get
  Prog.modify fun h => { h with clock := h.clock + 1 }
  pure h.clock

def uuid4 (env : Environment) : StoreM J String := do
  let n ← tick
  pure (env.hex n)

def now (env : Environment) : StoreM J String := do
  let n ← tick
  pure (env.now n)

def write (change : Store J → Store J) : StoreM J Unit := do
  let h ← Prog.get
  match h.faults with
  | true :: faults =>
    Prog.modify fun h => { h with faults := faults }
    Prog.throw (.store "Failed to write session file.")
  | _ => Prog.modify fun h => { h with store := change h.store, faults := h.faults.tail }

/-- `_write_checkpoint`. -/
def writeCheckpoint (c : Checkpoint J) : StoreM J Unit := do
  let h ← Prog.get
  if h.store.refusesCheckpoint c then
    Prog.throw (.store s!"Invalid session or checkpoint id for file store: {c.sessionId} / {c.id}.")
  else write (·.withCheckpoint c)

/-- `_write_meta`. -/
def writeMeta (m : SessionMeta) : StoreM J Unit := do
  let h ← Prog.get
  if h.store.refusesMeta m then
    Prog.throw (.store s!"Invalid session id for file store: {m.sessionId}.")
  else write (·.withMeta m)

/-- `_delete_checkpoint`. -/
def deleteCheckpoint (id : String) : StoreM J Unit :=
  write (·.without id)

/-- `_advance_head`: points the session head at the just-written checkpoint. -/
def advanceHead (env : Environment) (c : Checkpoint J) : StoreM J Unit := do
  let now ← now env
  let h ← Prog.get
  writeMeta (h.store.advancedMeta c now)

/-- Assigns a monotonic `seq`, persists the checkpoint, and advances the session head. -/
def put (env : Environment) (c : Checkpoint J) : StoreM J (Checkpoint J) := do
  let h ← Prog.get
  let stored := { c with seq := h.store.nextSeq c.sessionId }
  writeCheckpoint stored
  advanceHead env stored
  pure stored

/-- A checkpoint, or `CheckpointNotFoundError`. -/
def get (id : String) : StoreM J (Checkpoint J) := do
  let h ← Prog.get
  match h.store.readCheckpoint id with
  | none => Prog.throw (.checkpointNotFound s!"Unknown checkpoint id: {id}.")
  | some c => pure c

def head (sessionId : String) : StoreM J (Option (Checkpoint J)) := do
  let h ← Prog.get
  pure (h.store.head sessionId)

/-- Session metadata, or `SessionNotFoundError`. -/
def getMeta (sessionId : String) : StoreM J SessionMeta := do
  let h ← Prog.get
  match h.store.readMeta sessionId with
  | none => Prog.throw (.sessionNotFound s!"Unknown session id: {sessionId}.")
  | some m => pure m

/-- The first maximal element, as `max(items, key=…)` picks it. -/
def maxBy {α : Type} (le : α → α → Bool) : List α → Option α
  | [] => none
  | a :: l => some (l.foldl (fun best b => if le b best then best else b) a)

def resolve (identifier : String) : StoreM J String := do
  let h ← Prog.get
  if (h.store.readMeta identifier).isSome then pure identifier
  else
    let tagged := h.store.metas.filter (identifier ∈ ·.tags)
    let le := fun m n : SessionMeta =>
      decide (m.updatedAt < n.updatedAt ∨ m.updatedAt = n.updatedAt ∧ m.sessionId ≤ n.sessionId)
    match maxBy le tagged with
    | none => Prog.throw (.sessionNotFound s!"No session id or tag: {identifier}.")
    | some m => pure m.sessionId

/-- Writes the records verbatim, checkpoints in `seq` order and the metadata last. -/
def ingest (m : SessionMeta) (checkpoints : List (Checkpoint J)) : StoreM J Unit := do
  forM (checkpoints.mergeSort fun c d => decide (c.seq ≤ d.seq)) writeCheckpoint
  writeMeta m

/-- Deletes checkpoints beyond `keep`, never the current head. -/
def prune (sessionId : String) (keep : Option Int) : StoreM J Unit := do
  match keep with
  | none => pure ()
  | some keep =>
    let h ← Prog.get
    forM (h.store.pruned sessionId keep) fun c => deleteCheckpoint c.id

end StoreM

end VidbyteSdk.Sessions
