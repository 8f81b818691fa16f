import VidbyteSdk.Sessions.Store

/-!
# Sessions

The verbs of `Session` (`sessions/session.py`) over a store that any number of `Session` objects
share, several of them possibly bound to one session id or to one agent. What an agent exports and how
it is rebuilt are parameters: the sessions only pass these values through.
-/

namespace VidbyteSdk.Sessions

open VidbyteSdk.Lib

variable {J : Type}

/-- When a session writes checkpoints during execution. -/
inductive CheckpointPolicy where
  | perTurn | perStep | manual
  deriving DecidableEq

/-- How much trace data a session persists alongside each checkpoint. -/
inductive TraceCapture where
  | off | auto | artifact | full
  deriving DecidableEq

structure AgentMessage (J : Type) where
  sender : String
  recipient : String
  content : String
  messageType : String := "response"
  metadata : J
  structured : Option J := none
  deriving DecidableEq

/-- The state of an agent a session reads or writes; `config` is everything else it exports. -/
structure Agent (J : Type) where
  name : String
  history : List (AgentMessage J) := []
  lastReply : Option (AgentMessage J) := none
  toolCallContexts : List J := []
  sessionPersistenceSupported : Bool := true
  config : J
  deriving DecidableEq

structure CapturedTrace (J : Type) where
  artifact : Option J := none
  summary : Option J := none
  events : Option (List J) := none

structure SessionEnvironment (J : Type) extends Environment where
  exportState : Agent J → Except SessionException (RunState J)
  restoreAgent : RunState J → Except SessionException (Agent J)
  messageFromDict : J → AgentMessage J
  capture : TraceCapture → Agent J → AgentMessage J → CapturedTrace J
  /-- `{"resumed_session_id": …, "resumed_checkpoint_id": …}`. -/
  resumedMetadata : (sessionId checkpointId : String) → J
  emptyMetadata : J

/-- One `Session` object; its agent is a position in `World.agents`. -/
structure Session where
  agent : Nat
  sessionId : String
  policy : CheckpointPolicy
  trace : TraceCapture
  tags : List String
  parentSessionId : Option String
  headId : Option String
  deriving DecidableEq

/-- A process: a store, its agents and its `Session` objects. -/
structure World (J : Type) where
  host : Host J
  agents : List (Agent J) := []
  sessions : List Session := []

abbrev SessionM (J α : Type) : Type := Prog (World J) SessionException α

namespace SessionM

variable (env : SessionEnvironment J)

def onStore {α : Type} (m : StoreM J α) : SessionM J α :=
  Prog.zoom World.host (fun h w => { w with host := h }) m

/-- The `Session` object at a position. -/
def session (i : Nat) : SessionM J Session := do
  let w ← Prog.get
  match w.sessions[i]? with
  | none => Prog.throw (.other "no such session object")
  | some s => pure s

def agent (i : Nat) : SessionM J (Agent J) := do
  let w ← Prog.get
  match w.agents[i]? with
  | none => Prog.throw (.other "no such agent")
  | some a => pure a

def setSession (i : Nat) (s : Session) : SessionM J Unit :=
  Prog.modify fun w => { w with sessions := w.sessions.set i s }

def setAgent (i : Nat) (a : Agent J) : SessionM J Unit :=
  Prog.modify fun w => { w with agents := w.agents.set i a }

def now : SessionM J String := onStore (StoreM.now env.toEnvironment)

def uuid4 : SessionM J String := onStore (StoreM.uuid4 env.toEnvironment)

/-- `_empty_reply`. -/
def emptyReply (name : String) : AgentMessage J :=
  { sender := name, recipient := "orchestrator", content := "", metadata := env.emptyMetadata }

/-- The checkpoint `_persist` builds; `put` assigns its `seq`. -/
def snapshot (s : Session) (captured : CapturedTrace J) (id createdAt : String)
    (runState : RunState J) (label : String) (status : SessionStatus) : Checkpoint J :=
  { id, sessionId := s.sessionId, parentId := s.headId, seq := 0, createdAt, runState, label, status
    traceArtifact := captured.artifact, traceSummary := captured.summary
    traceEvents := captured.events }

/-- `_persist`: builds a checkpoint from the agent's current state and writes it to the store. -/
def persist (i : Nat) (reply : Option (AgentMessage J)) (label : String)
    (status : SessionStatus := .active) : SessionM J (Checkpoint J) := do
  let s ← session i
  let a ← agent s.agent
  let captured := env.capture s.trace a (reply.getD (emptyReply env a.name))
  let hex ← uuid4 env
  let createdAt ← now env
  let runState ← Prog.ofExcept (env.exportState a)
  let stored ← onStore <| StoreM.put env.toEnvironment
    (snapshot s captured ("ck_" ++ hex) createdAt runState label status)
  setSession i { s with headId := some stored.id }
  pure stored

/-- `_assert_session_absent`. -/
def assertSessionAbsent (sessionId : String) : SessionM J Unit := do
  let w ← Prog.get
  Prog.throwIf (w.host.store.readMeta sessionId).isSome
    (.session
      s!"Session {sessionId} already exists; continue it with Session.resume(store, session_id).")

/-- `_write_initial_meta`. -/
def writeInitialMeta (agentName : String) (s : Session) : SessionM J Unit := do
  let now ← now env
  onStore <| StoreM.writeMeta
    { sessionId := s.sessionId, headId := none, parentSessionId := s.parentSessionId, agentName
      status := .active, createdAt := now, updatedAt := now, tags := s.tags }

/-- `session_id or f"se_{uuid4().hex}"`. -/
def chooseSessionId (sessionId : Option String) : SessionM J String :=
  match sessionId.filter (· ≠ "") with
  | some id => pure id
  | none => do
    let hex ← uuid4 env
    pure ("se_" ++ hex)

/-- `_adopt_existing_head` and `_adopt_existing_tags`. -/
def adoptExisting (s : Session) : SessionM J Session := do
  let w ← Prog.get
  pure { s with
    headId := (w.host.store.head s.sessionId).map (·.id)
    tags := ((w.host.store.readMeta s.sessionId).map (·.tags)).getD s.tags }

def createSession (agentName : String) (s : Session) : SessionM J Session := do
  assertSessionAbsent s.sessionId
  writeInitialMeta env agentName s
  pure s

/-- Binds a new object's head and tags: the stored ones of an existing session, or none. -/
def adoptOrCreate (existing : Bool) (agentName : String) (s : Session) : SessionM J Session :=
  if existing then adoptExisting s else createSession env agentName s

/-- `Session(…)`: either records the initial metadata of a new id or adopts an existing session. The
position of the new object is returned. -/
def construct (agentIndex : Nat) (sessionId : Option String) (policy : CheckpointPolicy)
    (trace : TraceCapture) (tags : List String) (parentSessionId : Option String)
    (existing : Bool) : SessionM J Nat := do
  let a ← agent agentIndex
  Prog.throwIf (!a.sessionPersistenceSupported)
    (.session "This agent type does not support durable session persistence.")
  let sessionId ← chooseSessionId env sessionId
  let s ← adoptOrCreate env existing a.name
    { agent := agentIndex, sessionId, policy, trace, tags, parentSessionId, headId := none }
  let w ← Prog.get
  Prog.modify fun w => { w with sessions := w.sessions ++ [s] }
  pure w.sessions.length

/-- `_restore_agent`: the position of the rebuilt agent. -/
def restoreAgent (source : Checkpoint J) : SessionM J Nat := do
  let a ← Prog.ofExcept (env.restoreAgent source.runState)
  let w ← Prog.get
  Prog.modify fun w => { w with agents := w.agents ++ [a] }
  pure w.agents.length

/-- `_restore_agent_history`. -/
def restoreAgentHistory (i : Nat) (source : Checkpoint J) : SessionM J Unit := do
  let s ← session i
  let a ← agent s.agent
  setAgent s.agent
    { a with history := source.runState.history.map env.messageFromDict, toolCallContexts := [] }

def checkpoint (i : Nat) (label : String) : SessionM J String := do
  let s ← session i
  let stored ← onStore (StoreM.getMeta s.sessionId)
  let a ← agent s.agent
  let c ← persist env i a.lastReply label stored.status
  pure c.id

/-- Persists one completed agent turn by policy; a failure never ends the run. -/
def recordTurn (i : Nat) (reply : AgentMessage J) : SessionM J Unit := do
  let s ← session i
  if s.policy ≠ .manual then
    Prog.tryCatch (do let _ ← persist env i (some reply) ""; pure ()) fun _ => pure ()

def forkFrom (checkpointId : String) (policy : CheckpointPolicy) (trace : TraceCapture)
    (tags : List String) : SessionM J Nat := do
  let source ← onStore (StoreM.get checkpointId)
  let a ← restoreAgent env source
  let hex ← uuid4 env
  let i ← construct env a (some ("se_" ++ hex)) policy trace tags (some source.sessionId) false
  let _ ← persist env i none "fork"
  pure i

/-- `fork` refuses a checkpoint it was given from another session. -/
def assertOwnCheckpoint (s : Session) (at? : Option String) : SessionM J Unit :=
  match at? with
  | none => pure ()
  | some id => do
    let source ← onStore (StoreM.get id)
    Prog.throwIf (source.sessionId ≠ s.sessionId)
      (.session "Cannot fork from a checkpoint from another session.")

/-- Branches a new session from a checkpoint of this one, the head by default. -/
def fork (i : Nat) (at? : Option String) : SessionM J Nat := do
  let s ← session i
  match (at?.filter (· ≠ "")).or s.headId with
  | none => Prog.throw (.session "Cannot fork a session with no checkpoints.")
  | some checkpointId => do
    assertOwnCheckpoint s at?
    forkFrom env checkpointId s.policy s.trace s.tags

def rewind (i : Nat) (toId : String) : SessionM J Unit := do
  let target ← onStore (StoreM.get toId)
  let s ← session i
  Prog.throwIf (target.sessionId ≠ s.sessionId)
    (.session "Cannot rewind to a checkpoint from another session.")
  restoreAgentHistory env i target
  setSession i { s with headId := some toId }
  let m ← onStore (StoreM.getMeta s.sessionId)
  let now ← now env
  onStore (StoreM.writeMeta { m with headId := some toId, updatedAt := now })

/-- Applies a transform to the history and writes the result as a new checkpoint. -/
def edit (i : Nat) (transform : List (AgentMessage J) → Except SessionException (List (AgentMessage J)))
    (label : String) : SessionM J Unit := do
  let s ← session i
  let a ← agent s.agent
  let history ← Prog.ofExcept (transform a.history)
  setAgent s.agent { a with history, toolCallContexts := [] }
  let _ ← persist env i a.lastReply label
  pure ()

def complete (i : Nat) : SessionM J Unit := do
  let s ← session i
  let m ← onStore (StoreM.getMeta s.sessionId)
  let now ← now env
  onStore (StoreM.writeMeta { m with status := .completed, updatedAt := now })

/-- `tuple(dict.fromkeys((*tags, *names)))`. -/
def mergeTags (tags names : List String) : List String :=
  (tags ++ names).foldl (fun seen t => if t ∈ seen then seen else seen ++ [t]) []

def tag (i : Nat) (names : List String) : SessionM J Unit := do
  let s ← session i
  let m ← onStore (StoreM.getMeta s.sessionId)
  let tags := mergeTags m.tags names
  let now ← now env
  onStore (StoreM.writeMeta { m with tags, updatedAt := now })
  setSession i { s with tags }

/-- Replaces the bound agent's history with a checkpoint of any session. -/
def adopt (i : Nat) (checkpointId label : String) : SessionM J String := do
  let source ← onStore (StoreM.get checkpointId)
  restoreAgentHistory env i source
  let c ← persist env i none label
  pure c.id

/-- `_frame_resumed_history`. -/
def frameResumedHistory (recipient : String) (source : Checkpoint J) : List (AgentMessage J) :=
  let messages := source.runState.history.map env.messageFromDict
  if messages.isEmpty then []
  else
    let transcript := String.intercalate "\n\n" (messages.map fun m => s!"[{m.sender}]: {m.content}")
    let opening := "<resumed_thread session_id=\"" ++ source.sessionId ++ "\" checkpoint_id=\""
      ++ source.id ++ "\">\n"
    [{ sender := source.runState.agentName, recipient
       content := opening ++ transcript ++ "\n</resumed_thread>"
       metadata := env.resumedMetadata source.sessionId source.id }]

/-- Appends another session's checkpoint history, framed, to the bound agent. -/
def appendContext (i : Nat) (checkpointId label : String) : SessionM J String := do
  let source ← onStore (StoreM.get checkpointId)
  let s ← session i
  let a ← agent s.agent
  setAgent s.agent { a with history := a.history ++ frameResumedHistory env a.name source }
  let c ← persist env i none label
  pure c.id

/-- `_extract_last_output`. -/
def extractLastOutput (recipient : String) (source : Checkpoint J) : AgentMessage J :=
  let history := source.runState.history.map env.messageFromDict
  let content := ((history.reverse.find? (·.sender = source.runState.agentName)).map (·.content)).getD ""
  let opening := "<resumed_output session_id=\"" ++ source.sessionId ++ "\">\n"
  { sender := source.runState.agentName, recipient
    content := opening ++ content ++ "\n</resumed_output>"
    metadata := env.resumedMetadata source.sessionId source.id }

def appendOutput (i : Nat) (identifier label : String) : SessionM J String := do
  let sessionId ← onStore (StoreM.resolve identifier)
  let m ← onStore (StoreM.getMeta sessionId)
  Prog.throwIf (m.status ≠ .completed)
    (.session "Cannot append output from a session that is not completed.")
  let head ← onStore (StoreM.head sessionId)
  match head with
  | none => Prog.throw (.session "Cannot append output from a session with no checkpoints.")
  | some head => do
    let s ← session i
    let a ← agent s.agent
    setAgent s.agent { a with history := a.history ++ [extractLastOutput env a.name head] }
    let c ← persist env i none label
    pure c.id

/-- The checkpoint `resume` restores: the given one, or the head. -/
def resumeSource (sessionId : String) (given : Option String) : SessionM J (Checkpoint J) :=
  match given with
  | some id => do
    let source ← onStore (StoreM.get id)
    Prog.throwIf (source.sessionId ≠ sessionId)
      (.session "Cannot resume from a checkpoint from another session.")
    pure source
  | none => do
    let source ← onStore (StoreM.head sessionId)
    match source with
    | none => Prog.throw (.session "Cannot resume a session with no checkpoints.")
    | some source => pure source

def resume (identifier : String) (checkpointId : Option String) (policy : CheckpointPolicy)
    (trace : TraceCapture) : SessionM J Nat := do
  let sessionId ← onStore (StoreM.resolve identifier)
  let given := checkpointId.filter (· ≠ "")
  let source ← resumeSource sessionId given
  let a ← restoreAgent env source
  let i ← construct env a (some sessionId) policy trace [] none true
  match given with
  | none => pure i
  | some _ => do
    rewind env i source.id
    pure i

end SessionM

/-! ### Operations -/

/-- One operation of a program that uses sessions. `newAgent` and `agentRuns` stand for everything an
agent does between two verbs. -/
inductive SessionOp (J : Type) where
  | newAgent (a : Agent J)
  | agentRuns (i : Nat) (run : Agent J → Agent J)
  | newSession (agent : Nat) (sessionId : Option String) (policy : CheckpointPolicy)
      (trace : TraceCapture) (tags : List String) (parentSessionId : Option String)
  | resume (identifier : String) (checkpointId : Option String) (policy : CheckpointPolicy)
      (trace : TraceCapture)
  | forkFrom (checkpointId : String) (policy : CheckpointPolicy) (trace : TraceCapture)
      (tags : List String)
  | checkpoint (i : Nat) (label : String)
  | recordTurn (i : Nat) (reply : AgentMessage J)
  | fork (i : Nat) (at? : Option String)
  | rewind (i : Nat) (toId : String)
  | edit (i : Nat)
      (transform : List (AgentMessage J) → Except SessionException (List (AgentMessage J)))
      (label : String)
  | adopt (i : Nat) (checkpointId label : String)
  | appendContext (i : Nat) (checkpointId label : String)
  | appendOutput (i : Nat) (identifier label : String)
  | tag (i : Nat) (names : List String)
  | complete (i : Nat)
  | prune (sessionId : String) (keep : Option Int)

def SessionOp.run (env : SessionEnvironment J) : SessionOp J → SessionM J Unit
  | newAgent a => Prog.modify fun w => { w with agents := w.agents ++ [a] }
  | agentRuns i run => do
    let a ← SessionM.agent i
    SessionM.setAgent i (run a)
  | newSession a sessionId policy trace tags parentSessionId => do
    let _ ← SessionM.construct env a sessionId policy trace tags parentSessionId false
    pure ()
  | resume identifier checkpointId policy trace => do
    let _ ← SessionM.resume env identifier checkpointId policy trace
    pure ()
  | forkFrom checkpointId policy trace tags => do
    let _ ← SessionM.forkFrom env checkpointId policy trace tags
    pure ()
  | checkpoint i label => do
    let _ ← SessionM.checkpoint env i label
    pure ()
  | recordTurn i reply => SessionM.recordTurn env i reply
  | fork i at? => do
    let _ ← SessionM.fork env i at?
    pure ()
  | rewind i toId => SessionM.rewind env i toId
  | edit i transform label => SessionM.edit env i transform label
  | adopt i checkpointId label => do
    let _ ← SessionM.adopt env i checkpointId label
    pure ()
  | appendContext i checkpointId label => do
    let _ ← SessionM.appendContext env i checkpointId label
    pure ()
  | appendOutput i identifier label => do
    let _ ← SessionM.appendOutput env i identifier label
    pure ()
  | tag i names => SessionM.tag env i names
  | complete i => SessionM.complete env i
  | prune sessionId keep => SessionM.onStore (StoreM.prune sessionId keep)

/-- A sequence of operations; an exception ends its own operation only. -/
def runOps (env : SessionEnvironment J) (ops : List (SessionOp J)) : SessionM J Unit :=
  forM ops fun op => Prog.tryCatch (op.run env) fun _ => pure ()

end VidbyteSdk.Sessions
