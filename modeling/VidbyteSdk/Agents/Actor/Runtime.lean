import VidbyteSdk.Lib.Text
import VidbyteSdk.Lib.Upsert
import VidbyteSdk.Util.CredentialKeys

/-!
# The actor runtime

The brokers of an actor run, point to point and broadcast, and the receive loop of an actor. A step
runs one task between two suspensions: an actor takes its next message, the model call of an actor
ends, the quiescence monitor wakes up, or the run goes on after its completion. An inbox has no
bound, so that a `put` does not suspend.
-/

namespace VidbyteSdk.Agents.Actor

open Lib Util

structure ActorMessage where
  sender : String
  recipient : String
  content : String
  parentTaskId : Option String
  state : List String

inductive Phase
  | waiting
  | calling (msg : ActorMessage)
  | stopped

structure AgentActor where
  actorId : String
  inbox : List ActorMessage
  phase : Phase

def AgentActor.isBusy (actor : AgentActor) : Bool :=
  match actor.phase with
  | .calling _ => true
  | _ => false

inductive Topology
  | pointToPoint
  | broadcast
  deriving DecidableEq

inductive TerminationMode
  | coordinator
  | quiescence
  deriving DecidableEq

/-- The runtime as it was built, and the prompt of the run. -/
structure Setup where
  topology : Topology
  terminationMode : TerminationMode
  agentName : String
  maxLoop : ℕ
  /-- The ids of the actors that are spawned before the root. -/
  includeActors : List String
  message : String

inductive Completion (ε : Type*)
  | result (text : String)
  | raised (exc : ε)

inductive SpanOutput
  | maxLoop
  | ignoredNonRootCompletion
  | completion
  | queued
  | missingRecipient
  | broadcast
  deriving DecidableEq

structure MessageSpan where
  sender : String
  recipient : String
  content : String
  output : SpanOutput

/-- What `arun` returns. -/
structure StrategyResult where
  output : String
  messageCount : ℕ
  activeActors : ℕ
  /-- `stop_reason` is `max_iterations`. -/
  maxIterations : Bool

structure State (ε : Type*) where
  spawned : List AgentActor
  /-- `_actors`: the actor of each id, by its place among the spawned. -/
  actors : List (String × ℕ)
  messageCount : ℕ
  completion : Option (Completion ε)
  bootPending : Bool
  maxLoopReached : Bool
  busyActors : ℤ
  spans : List MessageSpan
  returned : Option (Except ε StrategyResult)

def limitNotice (maxLoop : ℕ) : String :=
  "Execution terminated. Max loops (" ++ toString maxLoop ++ ") reached."

def quiescenceNotice : String := "Quiescence reached. Swarm execution completed."

section Broker

variable {ε : Type*} (setup : Setup)

def State.fresh : State ε where
  spawned := []
  actors := []
  messageCount := 0
  completion := none
  bootPending := false
  maxLoopReached := false
  busyActors := 0
  spans := []
  returned := none

def State.setActor (s : State ε) (i : ℕ) (f : AgentActor → AgentActor) : State ε :=
  { s with spawned := s.spawned.modify i f }

def State.setPhase (s : State ε) (i : ℕ) (phase : Phase) : State ε :=
  s.setActor i fun actor => { actor with phase := phase }

/-- `inbox.put` -/
def State.put (s : State ε) (msg : ActorMessage) (i : ℕ) : State ε :=
  s.setActor i fun actor => { actor with inbox := actor.inbox ++ [msg] }

def State.spawn (s : State ε) (actorId : String) : State ε :=
  { s with
    spawned := s.spawned ++ [⟨actorId, [], .waiting⟩]
    actors := upsert Prod.fst (actorId, s.spawned.length) s.actors }

def State.markBusy (s : State ε) : State ε := { s with busyActors := s.busyActors + 1 }

def State.markIdle (s : State ε) : State ε := { s with busyActors := s.busyActors - 1 }

def State.complete (s : State ε) (completion : Completion ε) : State ε :=
  match s.completion with
  | none => { s with completion := some completion }
  | some _ => s

def State.fail (s : State ε) (exc : ε) : State ε := s.complete (.raised exc)

def State.endSpan (s : State ε) (sender recipient content : String) (output : SpanOutput) :
    State ε :=
  { s with spans := s.spans ++ [⟨sender, recipient, content, output⟩] }

def State.refuse (s : State ε) : State ε :=
  match s.completion with
  | none => { s.complete (.result (limitNotice setup.maxLoop)) with maxLoopReached := true }
  | some _ => s

def isCompletionAddress (recipient : String) : Bool :=
  recipient == "system" || recipient == "orchestrator"

def State.answerRun (s : State ε) (sender content : String) : State ε × SpanOutput :=
  if setup.terminationMode = .coordinator ∧ sender ≠ setup.agentName then
    (s, .ignoredNonRootCompletion)
  else (s.complete (.result content), .completion)

/-- A message to an actor, or to every actor but the sender. -/
def State.route (s : State ε) (isBoot : Bool) (sender recipient content : String)
    (parentTaskId : Option String) : State ε × SpanOutput :=
  match setup.topology with
  | .pointToPoint =>
    match s.actors.lookup recipient with
    | some i => (s.put ⟨sender, recipient, content, parentTaskId, []⟩ i, .queued)
    | none => (s, .missingRecipient)
  | .broadcast =>
    ((s.actors.filter fun entry => entry.1 ≠ sender || isBoot).foldl
      (fun s entry => s.put ⟨sender, entry.1, content, parentTaskId, []⟩ entry.2) s, .broadcast)

/-- The body of `send`, once the message is counted. -/
def State.deliver (s : State ε) (sender recipient content : String)
    (parentTaskId : Option String) : State ε × SpanOutput :=
  if s.messageCount > setup.maxLoop then (s.refuse setup, .maxLoop)
  else
    let isBoot := s.bootPending
    let s := { s with bootPending := false }
    if !isBoot && isCompletionAddress recipient then s.answerRun setup sender content
    else s.route setup isBoot sender recipient content parentTaskId

/-- `send` -/
def State.send (s : State ε) (sender recipient content : String)
    (parentTaskId : Option String) : State ε :=
  let (s, output) := ({ s with messageCount := s.messageCount + 1 }).deliver setup sender recipient
    content parentTaskId
  s.endSpan sender recipient content output

/-- `arun`, up to its first suspension: the actors, the root and the boot message. -/
def boot : State ε :=
  let s := (setup.includeActors.foldl State.spawn State.fresh).spawn setup.agentName
  ({ s with bootPending := true }).send setup "system" setup.agentName setup.message none

/-- `_check_quiescence` -/
def State.checkQuiescence (s : State ε) : Bool :=
  decide (s.messageCount ≠ 0) && !decide (s.busyActors > 0) &&
    s.actors.all fun entry => s.spawned[entry.2]?.all fun actor => actor.inbox.isEmpty

end Broker

/-! ### Steps -/

inductive Reply (ε : Type*)
  | text (content : String)
  | error (exc : ε)
  /-- With a `CancelledError`, which an actor's loop takes for its own end. -/
  | cancelled

inductive Event (ε : Type*)
  /-- The actor takes its next message. -/
  | receive (i : ℕ)
  | reply (i : ℕ) (reply : Reply ε)
  /-- The quiescence monitor wakes up. -/
  | poll
  /-- `arun` goes on after the completion. -/
  | finish

section Step

variable {ε : Type*} (setup : Setup) (casing : Casing)

def isExitSignal (msg : ActorMessage) : Bool :=
  decide (msg.sender ≠ "system") &&
    decide (casing.lower (strip msg.content).toList = ['e', 'x', 'i', 't'])

/-- `on_receive` returns without a model call. -/
def isTermination (msg : ActorMessage) : Bool :=
  decide ("terminate_task" ∈ msg.state) || isExitSignal casing msg

def State.onReceive (s : State ε) (i : ℕ) (msg : ActorMessage) (rest : List ActorMessage) :
    State ε :=
  let s := (s.setActor i fun actor => { actor with inbox := rest }).markBusy
  if isTermination casing msg then s.markIdle else s.setPhase i (.calling msg)

def State.onReply (s : State ε) (i : ℕ) (actorId : String) (msg : ActorMessage) :
    Reply ε → State ε
  | .text content =>
    let s := if content = "" then s
      else s.send setup actorId msg.sender content msg.parentTaskId
    (s.markIdle).setPhase i .waiting
  | .error exc => ((s.markIdle).fail exc).setPhase i .stopped
  | .cancelled => (s.markIdle).setPhase i .stopped

def State.result (s : State ε) : Completion ε → Except ε StrategyResult
  | .result text => .ok ⟨text, s.messageCount, s.actors.length, s.maxLoopReached⟩
  | .raised exc => .error exc

def State.cleanUp (s : State ε) (completion : Completion ε) : State ε :=
  { s with
    returned := some (s.result completion)
    spawned := []
    actors := []
    busyActors := s.busyActors - (s.spawned.countP AgentActor.isBusy : ℕ) }

def step (s : State ε) : Event ε → Option (State ε)
  | .receive i =>
    match s.spawned[i]? with
    | some ⟨_, msg :: rest, .waiting⟩ => some (s.onReceive casing i msg rest)
    | _ => none
  | .reply i reply =>
    match s.spawned[i]? with
    | some ⟨actorId, _, .calling msg⟩ => some (s.onReply setup i actorId msg reply)
    | _ => none
  | .poll =>
    if setup.terminationMode = .quiescence then
      some (if s.checkQuiescence then s.complete (.result quiescenceNotice) else s)
    else none
  | .finish =>
    match s.completion, s.returned with
    | some completion, none => some (s.cleanUp completion)
    | _, _ => none

structure Transition (ε : Type*) where
  before : State ε
  event : Event ε
  after : State ε

inductive Run : List (Transition ε) → State ε → Prop
  | boot : Run [] (boot setup)
  | next {trace : List (Transition ε)} {s s' : State ε} {e : Event ε} (h : Run trace s)
      (hstep : step setup casing s e = some s') : Run (trace ++ [⟨s, e, s'⟩]) s'

end Step

end VidbyteSdk.Agents.Actor
