import VidbyteSdk.Lib.Utf8

/-!
# The MCP stdio transport

The coroutines of one transport as tasks that interleave at their suspension points, over the
transport's fields. A step runs one task from one suspension to the next, or is something that
happens to the transport: the child prints a line or exits, a spawn or a drain ends, a deadline
passes, a task is cancelled. A lock is handed on in the order in which it was asked for.
-/

namespace VidbyteSdk.Tools.Mcp

open Lib

abbrev CallId := ℕ

abbrev ChildId := ℕ

abbrev Members := List (Text × Json)

inductive EndReason
  | closed
  | processExited
  | readerFailed
  | processUnavailable
  deriving DecidableEq

inductive Failure
  /-- `MCP transport is closed` -/
  | closed
  /-- `MCP process is not available` -/
  | unavailable
  /-- What `create_subprocess_exec` raised. -/
  | spawn
  /-- `MCP process stdin is not writable` -/
  | notWritable
  /-- What `json.dumps` raised. -/
  | unencodable
  /-- `MCP server returned an error` -/
  | server (error : Json)
  /-- `MCP response result must be an object` -/
  | badResult
  /-- `MCP request timed out` -/
  | timeout
  | cancelled
  /-- What `_fail_all_pending` set. -/
  | ended (reason : EndReason)

inductive Outcome
  | returned
  | result (value : Members)
  | raised (failure : Failure)

inductive Future
  | waiting
  | done (outcome : Outcome)
  | cancelled

def Future.isWaiting : Future → Bool
  | .waiting => true
  | _ => false

inductive Interrupt
  | deadline
  | cancel
  deriving DecidableEq

/-- The coroutine a task runs; `body` is what its line carries besides the id. -/
inductive Kind
  | start
  | request (body : Text)
  | notify (body : Text)
  | close

def Kind.isRequest : Kind → Bool
  | .request _ => true
  | _ => false

inductive Point
  | absent
  | startLock
  | spawning
  | writeLock
  /-- In `drain`, with the write lock; a request has its id. -/
  | draining (id : Option ℕ)
  /-- In `wait_for(future)`. -/
  | responding (id : ℕ) (interrupt : Option Interrupt)
  | closeLock
  | terminating (child : ChildId)
  | killing (child : ChildId)
  /-- In `gather` over the reader tasks. -/
  | stopping (stdout stderr : Option ChildId)
  | left (outcome : Outcome)

structure Call where
  kind : Kind
  point : Point
  /-- Whether the timer of the request's deadline runs. -/
  armed : Bool

inductive Reader
  | created
  | reading
  | cancelling
  | finished
  deriving DecidableEq

structure Child where
  /-- `process.returncode is not None` -/
  exited : Bool
  stdout : Reader
  stderr : Reader

structure Lock where
  holder : Option CallId
  waiters : List CallId

structure Line where
  id : Option ℕ
  body : Text

structure State where
  closed : Bool
  process : Option ChildId
  stdoutTask : Option ChildId
  stderrTask : Option ChildId
  nextId : ℕ
  pending : List (ℕ × CallId)
  startLock : Lock
  writeLock : Lock
  closeLock : Lock
  calls : CallId → Call
  futures : CallId → Future
  /-- Every child the transport ever started, with its two reader tasks. -/
  children : List Child
  written : List Line

def initial : State where
  closed := false
  process := none
  stdoutTask := none
  stderrTask := none
  nextId := 1
  pending := []
  startLock := ⟨none, []⟩
  writeLock := ⟨none, []⟩
  closeLock := ⟨none, []⟩
  calls := fun _ => ⟨.start, .absent, false⟩
  futures := fun _ => .waiting
  children := []
  written := []

/-! ### Locks -/

/-- `acquire` does not suspend. -/
def Lock.isFree (lock : Lock) : Bool := lock.holder.isNone && lock.waiters.isEmpty

def Lock.queue (lock : Lock) (c : CallId) : Lock := { lock with waiters := lock.waiters ++ [c] }

def Lock.take (lock : Lock) (c : CallId) : Lock := { lock with holder := some c }

def Lock.release (lock : Lock) : Lock := { lock with holder := none }

def Lock.dequeue (lock : Lock) (c : CallId) : Lock :=
  { lock with waiters := lock.waiters.filter fun d => d ≠ c }

/-- The lock is handed to the waiter `c`. -/
def Lock.goesTo (lock : Lock) (c : CallId) : Bool :=
  lock.holder.isNone && decide (lock.waiters.head? = some c)

/-! ### Updates -/

section Updates

variable (s : State)

def State.point (c : CallId) : Point := (s.calls c).point

def State.kind (c : CallId) : Kind := (s.calls c).kind

def State.setCall (c : CallId) (call : Call) : State :=
  { s with calls := Function.update s.calls c call }

@[simp] theorem State.calls_setCall_self (c : CallId) (call : Call) :
    (s.setCall c call).calls c = call := Function.update_self ..

theorem State.calls_setCall_of_ne {c c' : CallId} (h : c' ≠ c) (call : Call) :
    (s.setCall c call).calls c' = s.calls c' := Function.update_of_ne h ..

def State.moveTo (c : CallId) (p : Point) : State :=
  s.setCall c { s.calls c with point := p }

def State.setStartLock (lock : Lock) : State := { s with startLock := lock }

def State.setWriteLock (lock : Lock) : State := { s with writeLock := lock }

def State.setCloseLock (lock : Lock) : State := { s with closeLock := lock }

def State.setClosed : State := { s with closed := true }

def State.leave (c : CallId) (o : Outcome) : State := s.moveTo c (.left o)

def State.setFuture (c : CallId) (f : Future) : State :=
  { s with futures := Function.update s.futures c f }

@[simp] theorem State.futures_setFuture_self (c : CallId) (f : Future) :
    (s.setFuture c f).futures c = f := Function.update_self ..

/-- `if not future.done(): future.cancel()` -/
def State.cancelFuture (c : CallId) : State :=
  if (s.futures c).isWaiting then s.setFuture c .cancelled else s

/-- `self._pending.pop(id, None)` -/
def State.pop (id : ℕ) : State :=
  { s with pending := s.pending.filter fun p => p.1 ≠ id }

/-- `_fail_all_pending` -/
def State.failAllPending (reason : EndReason) : State :=
  { s with
    pending := []
    futures := fun c =>
      if c ∈ s.pending.map Prod.snd ∧ (s.futures c).isWaiting then
        .done (.raised (.ended reason))
      else s.futures c }

/-- `_detach_process_state` -/
def State.detachProcessState : State :=
  { s with process := none, stdoutTask := none, stderrTask := none, pending := [] }

def State.setChild (k : ChildId) (f : Child → Child) : State :=
  { s with children := s.children.modify k f }

end Updates

/-! ### Requests and notifications -/

/-- What encoding a line, writing it and draining the pipe come to. -/
inductive Write
  | sent
  | full
  | broken
  | unencodable
  deriving DecidableEq

section Writing

variable (s : State) (c : CallId)

/-- `wait_for(future, timeout)`: suspends, with the deadline armed. -/
def State.awaitResponse (id : ℕ) : State :=
  s.setCall c { s.calls c with point := .responding id none, armed := true }

def State.register : State :=
  { s with nextId := s.nextId + 1, pending := s.pending ++ [(s.nextId, c)] }

def State.writeLine (id : Option ℕ) (body : Text) : State :=
  { s with written := s.written ++ [⟨id, body⟩] }

def State.failWrite (id : ℕ) : State :=
  (((s.pop id).cancelFuture c).leave c (.raised .notWritable))

/-- The body of a request's `async with self._write_lock`, and what follows it. -/
def State.sendRequest (body : Text) : Write → State
  | .unencodable => (s.register c).leave c (.raised .unencodable)
  | .broken => ((s.register c).writeLine (some s.nextId) body).failWrite c s.nextId
  | .sent => ((s.register c).writeLine (some s.nextId) body).awaitResponse c s.nextId
  | .full => (((s.register c).writeLine (some s.nextId) body).setWriteLock
      (s.writeLock.take c)).moveTo c (.draining (some s.nextId))

def State.sendNotification (body : Text) : Write → State
  | .unencodable => s.leave c (.raised .unencodable)
  | .broken => (s.writeLine none body).leave c (.raised .notWritable)
  | .sent => (s.writeLine none body).leave c .returned
  | .full => ((s.writeLine none body).setWriteLock (s.writeLock.take c)).moveTo c (.draining none)

def State.underWriteLock (w : Write) : State :=
  if s.closed || s.process.isNone then s.leave c (.raised .closed)
  else
    match s.kind c with
    | .request body => s.sendRequest c body w
    | .notify body => s.sendNotification c body w
    | _ => s

/-- `async with self._write_lock` -/
def State.acquireWriteLock (w : Write) : State :=
  if s.writeLock.isFree then s.underWriteLock c w
  else (s.setWriteLock (s.writeLock.queue c)).moveTo c .writeLock

/-- What follows `await self.start()`. -/
def State.started (w : Write) : State :=
  match s.kind c with
  | .request _ =>
    if s.process.isNone then s.leave c (.raised .unavailable) else s.acquireWriteLock c w
  | .notify _ => s.acquireWriteLock c w
  | _ => s.leave c .returned

def State.underStartLock (w : Write) : State :=
  if s.closed then s.leave c (.raised .closed)
  else if s.process.isSome then s.started c w
  else (s.setStartLock (s.startLock.take c)).moveTo c .spawning

/-- `start()` -/
def State.start (w : Write) : State :=
  if s.closed then s.leave c (.raised .closed)
  else if s.process.isSome then s.started c w
  else if s.startLock.isFree then s.underStartLock c w
  else (s.setStartLock (s.startLock.queue c)).moveTo c .startLock

def State.adoptChild : State :=
  { s with
    process := some s.children.length
    stdoutTask := some s.children.length
    stderrTask := some s.children.length
    children := s.children ++ [⟨false, .created, .created⟩] }

def State.spawned (w : Write) : State :=
  (s.adoptChild.setStartLock s.startLock.release).started c w

def State.drained (id : Option ℕ) : State :=
  let s := s.setWriteLock s.writeLock.release
  match id with
  | some id => s.awaitResponse c id
  | none => s.leave c .returned

def State.drainFailed (id : Option ℕ) : State :=
  let s := s.setWriteLock s.writeLock.release
  match id with
  | some id => s.failWrite c id
  | none => s.leave c (.raised .notWritable)

/-- The future of a waiting request is done: its result or its error, after the `finally`. -/
def State.respond (id : ℕ) (o : Outcome) : State :=
  (if (id, c) ∈ s.pending then s.pop id else s).leave c o

def State.interrupted (id : ℕ) (interrupt : Interrupt) : State :=
  ((s.pop id).cancelFuture c).leave c
    (.raised (match interrupt with
      | .deadline => .timeout
      | .cancel => .cancelled))

end Writing

/-! ### Responses -/

/-- `line.decode("utf-8")` -/
def decodeLine (bytes : List Byte) : Option Text :=
  if Utf8.encode (Utf8.decode bytes) = bytes then some (Utf8.decode bytes) else none

def messageOf (bytes : List Byte) : Option Members :=
  match (decodeLine bytes).bind Json.loads with
  | some (.obj members) => some members
  | _ => none

def idKey : Text := Json.word ['i', 'd']

def errorKey : Text := Json.word ['e', 'r', 'r', 'o', 'r']

def resultKey : Text := Json.word ['r', 'e', 's', 'u', 'l', 't']

def methodKey : Text := Json.word ['m', 'e', 't', 'h', 'o', 'd']

/-- A value that is an `int` of the source's language, where a `bool` is one. -/
def intOf? : Json → Option ℤ
  | .int n => some n
  | .bool true => some 1
  | .bool false => some 0
  | _ => none

def answered (message : Members) : Outcome :=
  match message.lookup errorKey with
  | some error => .raised (.server error)
  | none =>
    match message.lookup resultKey with
    | some (.obj value) => .result value
    | _ => .raised .badResult

def idOf? (bytes : List Byte) : Option (ℤ × Members) := do
  let message ← messageOf bytes
  let n ← (message.lookup idKey).bind intOf?
  some (n, message)

/-- `_dispatch_stdout_line` -/
def State.dispatchStdoutLine (s : State) (bytes : List Byte) : State :=
  match idOf? bytes with
  | none => s
  | some (n, message) =>
    match s.pending.find? fun p => (p.1 : ℤ) = n with
    | none => s
    | some (id, c) =>
      if (s.futures c).isWaiting then (s.pop id).setFuture c (.done (answered message))
      else s.pop id

/-! ### Shutdown -/

section Closing

variable (s : State) (c : CallId)

def Reader.cancel : Reader → Reader
  | .finished => .finished
  | _ => .cancelling

def State.cancelReaders (stdout stderr : Option ChildId) : State :=
  let s := match stdout with
    | some k => s.setChild k fun child => { child with stdout := child.stdout.cancel }
    | none => s
  match stderr with
  | some k => s.setChild k fun child => { child with stderr := child.stderr.cancel }
  | none => s

/-- The end of `close()`. -/
def State.closeReturns : State :=
  (s.detachProcessState.setCloseLock s.closeLock.release).leave c .returned

/-- `_stop_reader_tasks`, up to its `gather`. -/
def State.stopReaderTasks : State :=
  if s.stdoutTask.isNone && s.stderrTask.isNone then s.closeReturns c
  else (s.cancelReaders s.stdoutTask s.stderrTask).moveTo c (.stopping s.stdoutTask s.stderrTask)

def State.hasExited (k : ChildId) : Bool :=
  match s.children[k]? with
  | some child => child.exited
  | none => true

def State.underCloseLock : State :=
  let s := ((s.failAllPending .closed).setClosed).setCloseLock (s.closeLock.take c)
  match s.process with
  | some k => if s.hasExited k then s.stopReaderTasks c else s.moveTo c (.terminating k)
  | none => s.stopReaderTasks c

/-- `close()` -/
def State.close : State :=
  if s.closeLock.isFree then s.underCloseLock c
  else (s.setCloseLock (s.closeLock.queue c)).moveTo c .closeLock

def State.isStopped (task : Option ChildId) (reader : Child → Reader) : Bool :=
  match task with
  | none => true
  | some k =>
    match s.children[k]? with
    | some child => decide (reader child = .finished)
    | none => true

/-- `abandon()` -/
def State.abandon : State := s.detachProcessState.setClosed

def State.readerEnds (k : ChildId) (reason : EndReason) : State :=
  ((s.failAllPending reason).setChild k fun child => { child with stdout := .finished }).setClosed

end Closing

/-! ### Steps -/

inductive Event
  /-- A task enters a coroutine. -/
  | begin (c : CallId) (kind : Kind) (w : Write)
  /-- A task gets the lock it waited for. -/
  | enter (c : CallId) (w : Write)
  | spawned (c : CallId) (w : Write)
  | spawnFailed (c : CallId)
  | drained (c : CallId)
  | drainFailed (c : CallId)
  /-- The future of a request is done, and its task goes on. -/
  | resume (c : CallId)
  /-- The deadline of a request passes. -/
  | deadline (c : CallId)
  | cancel (c : CallId)
  /-- A request whose wait was interrupted goes on. -/
  | interrupted (c : CallId)
  | readerStarts (k : ChildId)
  | line (k : ChildId) (bytes : List Byte)
  | eof (k : ChildId)
  | readFailed (k : ChildId)
  | readerStops (k : ChildId)
  | stderrEnds (k : ChildId)
  | stderrStops (k : ChildId)
  | exits (k : ChildId)
  /-- The wait for the child's exit takes too long. -/
  | shutdownTimeout (c : CallId)
  /-- The child that a close waits for has exited. -/
  | waited (c : CallId)
  /-- The reader tasks that a close waits for have ended. -/
  | gathered (c : CallId)
  | abandon

section Step

variable (raises : List Byte → Bool)

def State.beginCall (s : State) (c : CallId) (kind : Kind) (w : Write) : State :=
  let s := s.setCall c ⟨kind, .absent, false⟩
  match kind with
  | .close => s.close c
  | _ => s.start c w

/-- The task `c` goes on with the lock it waited for. -/
def State.enter (s : State) (c : CallId) (w : Write) : Option State :=
  match s.point c with
  | .startLock =>
    if s.startLock.goesTo c then
      some ((s.setStartLock (s.startLock.dequeue c)).underStartLock c w)
    else none
  | .writeLock =>
    if s.writeLock.goesTo c then
      some ((s.setWriteLock (s.writeLock.dequeue c)).underWriteLock c w)
    else none
  | .closeLock =>
    if s.closeLock.goesTo c then
      some ((s.setCloseLock (s.closeLock.dequeue c)).underCloseLock c)
    else none
  | _ => none

/-- A cancellation reaches the task `c` where it is suspended. -/
def State.cancelCall (s : State) (c : CallId) : Option State :=
  let raised := .raised .cancelled
  match s.point c with
  | .startLock => some ((s.setStartLock (s.startLock.dequeue c)).leave c raised)
  -- the runtime ends the child of a spawn that is cancelled before it hands it over
  | .spawning => some ((s.setStartLock s.startLock.release).leave c raised)
  | .writeLock => some ((s.setWriteLock (s.writeLock.dequeue c)).leave c raised)
  -- the handler of the write names three errors, and a cancellation is none of them
  | .draining _ => some ((s.setWriteLock s.writeLock.release).leave c raised)
  | .responding id _ => some ((s.cancelFuture c).moveTo c (.responding id (some .cancel)))
  | .closeLock => some ((s.setCloseLock (s.closeLock.dequeue c)).leave c raised)
  | .terminating _ | .killing _ | .stopping _ _ =>
    some ((s.setCloseLock s.closeLock.release).leave c raised)
  | .absent | .left _ => none

/-- The stdout reader of the child `k`, where it is at the given place. -/
def State.reader (s : State) (k : ChildId) (at_ : Reader) (next : State) : Option State :=
  match s.children[k]? with
  | some child => if child.stdout = at_ then some next else none
  | none => none

theorem reader_eq_some {s s' : State} {k : ChildId} {r : Reader} {next : State}
    (hs : s.reader k r next = some s') :
    ∃ child, s.children[k]? = some child ∧ child.stdout = r ∧ next = s' := by
  unfold State.reader at hs
  cases hk : s.children[k]? with
  | none => simp [hk] at hs
  | some child =>
    simp only [hk, Option.ite_none_right_eq_some, Option.some.injEq] at hs
    exact ⟨child, rfl, hs⟩

def step (s : State) : Event → Option State
  | .begin c kind w =>
    match s.point c with
    | .absent => some (s.beginCall c kind w)
    | _ => none
  | .enter c w => s.enter c w
  | .spawned c w =>
    match s.point c with
    | .spawning => some (s.spawned c w)
    | _ => none
  | .spawnFailed c =>
    match s.point c with
    | .spawning => some ((s.setStartLock s.startLock.release).leave c (.raised .spawn))
    | _ => none
  | .drained c =>
    match s.point c with
    | .draining id => some (s.drained c id)
    | _ => none
  | .drainFailed c =>
    match s.point c with
    | .draining id => some (s.drainFailed c id)
    | _ => none
  | .resume c =>
    match s.point c, s.futures c with
    | .responding id _, .done o => some (s.respond c id o)
    | _, _ => none
  | .deadline c =>
    match s.point c with
    | .responding id none =>
      if (s.calls c).armed then
        some ((s.cancelFuture c).moveTo c (.responding id (some .deadline)))
      else none
    | _ => none
  | .cancel c => s.cancelCall c
  | .interrupted c =>
    match s.point c with
    | .responding id (some interrupt) => some (s.interrupted c id interrupt)
    | _ => none
  | .readerStarts k =>
    s.reader k .created
      (if s.process.isNone then
        (s.failAllPending .processUnavailable).setChild k
          fun child => { child with stdout := .finished }
      else s.setChild k fun child => { child with stdout := .reading })
  | .line k bytes =>
    s.reader k .reading
      (if raises bytes then s.readerEnds k .readerFailed else s.dispatchStdoutLine bytes)
  | .eof k => s.reader k .reading (s.readerEnds k .processExited)
  | .readFailed k => s.reader k .reading (s.readerEnds k .readerFailed)
  | .readerStops k =>
    s.reader k .cancelling (s.setChild k fun child => { child with stdout := .finished })
  | .stderrEnds k =>
    match s.children[k]? with
    | some child =>
      if child.stderr = .created then
        some (s.setChild k fun child => { child with stderr := .finished })
      else none
    | none => none
  | .stderrStops k =>
    match s.children[k]? with
    | some child =>
      if child.stderr = .cancelling then
        some (s.setChild k fun child => { child with stderr := .finished })
      else none
    | none => none
  | .exits k => some (s.setChild k fun child => { child with exited := true })
  | .shutdownTimeout c =>
    match s.point c with
    | .terminating k => some (s.moveTo c (.killing k))
    | _ => none
  | .waited c =>
    match s.point c with
    | .terminating k => if s.hasExited k then some (s.stopReaderTasks c) else none
    | .killing k => if s.hasExited k then some (s.stopReaderTasks c) else none
    | _ => none
  | .gathered c =>
    match s.point c with
    | .stopping stdout stderr =>
      if s.isStopped stdout Child.stdout && s.isStopped stderr Child.stderr then
        some (s.closeReturns c)
      else none
    | _ => none
  | .abandon => some s.abandon

structure Transition where
  before : State
  event : Event
  after : State

inductive Run : List Transition → State → Prop
  | init : Run [] initial
  | next {trace : List Transition} {s s' : State} {e : Event} (h : Run trace s)
      (hstep : step raises s e = some s') : Run (trace ++ [⟨s, e, s'⟩]) s'

def transitions : State → List Event → Option (List Transition × State)
  | s, [] => some ([], s)
  | s, e :: es =>
    match step raises s e with
    | none => none
    | some s' => (transitions s' es).map fun (trace, last) => (⟨s, e, s'⟩ :: trace, last)

theorem run_transitions {raises : List Byte → Bool} {es : List Event} {s s' : State}
    {trace trace' : List Transition} (h : Run raises trace s)
    (hes : transitions raises s es = some (trace', s')) : Run raises (trace ++ trace') s' := by
  induction es generalizing s trace trace' with
  | nil =>
    cases hes
    rwa [List.append_nil]
  | cons e es ih =>
    unfold transitions at hes
    cases hstep : step raises s e with
    | none => simp [hstep] at hes
    | some next =>
      simp only [hstep, Option.map_eq_some_iff, Prod.mk.injEq] at hes
      obtain ⟨⟨rest, last⟩, hrest, rfl, rfl⟩ := hes
      have hlong := ih (.next h hstep) hrest
      rwa [List.append_assoc] at hlong

end Step

end VidbyteSdk.Tools.Mcp
