import VidbyteSdk.Tools.Mcp.Demux

/-!
# Requests get their own answer

Each step of the transport is a few operations of the demultiplexer, so the demultiplexer's
invariant holds along every run in which no line is mistaken for a response and no request leaves
its entry behind.
-/

namespace VidbyteSdk.Tools.Mcp

open Lib

/-! ### The transport's updates as the demultiplexer's -/

section Updates

variable {s : State} {c : CallId}

@[simp] theorem nextId_demux : s.demux.nextId = s.nextId := rfl

theorem demux_setCall {call : Call} :
    (s.setCall c call).demux = s.demux.moveTo c call.point.stage := by
  simp only [State.demux, State.setCall, Demux.moveTo, Demux.mk.injEq, true_and, and_true]
  funext c'
  by_cases hcc : c' = c
  · subst hcc
    simp [State.point]
  · simp [State.point, hcc]

@[simp] theorem demux_moveTo (p : Point) : (s.moveTo c p).demux = s.demux.moveTo c p.stage :=
  demux_setCall

@[simp] theorem demux_leave (o : Outcome) : (s.leave c o).demux = s.demux.moveTo c (.left o) :=
  demux_setCall

@[simp] theorem demux_awaitResponse (id : ℕ) :
    (s.awaitResponse c id).demux = s.demux.moveTo c (.registered id) :=
  demux_setCall

@[simp] theorem demux_setFuture (f : Future) : (s.setFuture c f).demux = s.demux.setFuture c f :=
  rfl

@[simp] theorem demux_cancelFuture : (s.cancelFuture c).demux = s.demux.cancelFuture c := by
  unfold State.cancelFuture Demux.cancelFuture
  cases h : (s.futures c).isWaiting <;> simp [State.demux, h, State.setFuture, Demux.setFuture,
    State.point]

@[simp] theorem demux_pop (id : ℕ) : (s.pop id).demux = s.demux.pop id := rfl

@[simp] theorem demux_register : (s.register c).demux = s.demux.register c := rfl

@[simp] theorem demux_writeLine_some (id : ℕ) (body : Text) :
    (s.writeLine (some id) body).demux = s.demux.send id := by
  simp [State.demux, State.writeLine, Demux.send, State.point]

@[simp] theorem demux_writeLine_none (body : Text) : (s.writeLine none body).demux = s.demux := by
  simp [State.demux, State.writeLine, State.point]

@[simp] theorem demux_setStartLock (l : Lock) : (s.setStartLock l).demux = s.demux := rfl

@[simp] theorem demux_setWriteLock (l : Lock) : (s.setWriteLock l).demux = s.demux := rfl

@[simp] theorem demux_setCloseLock (l : Lock) : (s.setCloseLock l).demux = s.demux := rfl

@[simp] theorem demux_setClosed : s.setClosed.demux = s.demux := rfl

@[simp] theorem demux_adoptChild : s.adoptChild.demux = s.demux := rfl

@[simp] theorem demux_cancelReaders (stdout stderr : Option ChildId) :
    (s.cancelReaders stdout stderr).demux = s.demux := by
  unfold State.cancelReaders
  cases stdout <;> cases stderr <;> rfl

@[simp] theorem demux_failAllPending (reason : EndReason) :
    (s.failAllPending reason).demux = s.demux.failAll reason := rfl

@[simp] theorem demux_detachProcessState : s.detachProcessState.demux = s.demux.clear := rfl

@[simp] theorem demux_setChild (k : ChildId) (f : Child → Child) :
    (s.setChild k f).demux = s.demux := rfl

@[simp] theorem demux_failWrite (id : ℕ) :
    (s.failWrite c id).demux
      = ((s.demux.pop id).cancelFuture c).moveTo c (.left (.raised .notWritable)) := by
  simp [State.failWrite]

@[simp] theorem demux_dispatchStdoutLine (bytes : List Byte) :
    (s.dispatchStdoutLine bytes).demux = match idOf? bytes with
      | none => s.demux
      | some (n, message) => s.demux.receive n message := by
  unfold State.dispatchStdoutLine
  cases idOf? bytes with
  | none => rfl
  | some named =>
    obtain ⟨n, message⟩ := named
    simp only [Demux.receive]
    cases hfind : s.pending.find? fun p => (p.1 : ℤ) = n with
    | none => simp [State.demux, hfind]
    | some entry =>
      cases hwaiting : (s.futures entry.2).isWaiting <;>
        simp [State.demux, hfind, hwaiting, State.setFuture, State.pop, Demux.setFuture, Demux.pop,
          State.point]

end Updates

/-! ### The coroutines -/

section Coroutines

open Demux

variable {s : State} {c : CallId} {heard : Heard} {start : Demux}

variable {w : Write}

theorem reached_sendRequest (h : Reached start s.demux heard) (hc : s.demux.stage c = .idle)
    (body : Text) (hw : w ≠ .unencodable) :
    Reached start (s.sendRequest c body w).demux heard := by
  have hsent := h.registerAndSend hc
  cases w with
  | sent => simpa [State.sendRequest] using hsent
  | full => simpa [State.sendRequest, Point.stage] using hsent
  | broken =>
    have hgone := hsent.giveUp (stage_moveTo_self c _) (o := .raised .notWritable) rfl
    rw [pop_moveTo, cancelFuture_moveTo, moveTo_moveTo] at hgone
    simpa [State.sendRequest] using hgone
  | unencodable => exact absurd rfl hw

theorem reached_moveTo_idle (h : Reached start s.demux heard) (hc : s.demux.stage c = .idle)
    {p : Point} (hp : p.stage = .idle) : Reached start (s.moveTo c p).demux heard := by
  rw [demux_moveTo, hp, moveTo_of_eq hc]
  exact h

theorem reached_leave (h : Reached start s.demux heard) (hc : s.demux.stage c = .idle)
    {o : Outcome} (ho : o.isAnswer = false) : Reached start (s.leave c o).demux heard := by
  rw [demux_leave]
  exact h.leaveIdle hc ho

theorem reached_sendNotification (h : Reached start s.demux heard) (hc : s.demux.stage c = .idle)
    (body : Text) (w : Write) : Reached start (s.sendNotification c body w).demux heard := by
  have hline : Reached start (s.writeLine none body).demux heard := by
    rw [demux_writeLine_none]
    exact h
  have hidle : (s.writeLine none body).demux.stage c = .idle := hc
  cases w with
  | sent => exact reached_leave hline hidle rfl
  | full =>
    exact reached_moveTo_idle (s := (s.writeLine none body).setWriteLock _) hline hidle rfl
  | broken => exact reached_leave hline hidle rfl
  | unencodable => exact reached_leave h hc rfl

theorem reached_underWriteLock (h : Reached start s.demux heard) (hc : s.demux.stage c = .idle)
    (hw : w ≠ .unencodable) : Reached start (s.underWriteLock c w).demux heard := by
  unfold State.underWriteLock
  split
  · exact reached_leave h hc rfl
  · cases s.kind c with
    | request body => exact reached_sendRequest h hc body hw
    | notify body => exact reached_sendNotification h hc body w
    | start => exact h
    | close => exact h

theorem reached_acquireWriteLock (h : Reached start s.demux heard) (hc : s.demux.stage c = .idle)
    (hw : w ≠ .unencodable) : Reached start (s.acquireWriteLock c w).demux heard := by
  unfold State.acquireWriteLock
  split
  · exact reached_underWriteLock h hc hw
  · exact reached_moveTo_idle (s := s.setWriteLock _) h hc rfl

theorem reached_started (h : Reached start s.demux heard) (hc : s.demux.stage c = .idle)
    (hw : w ≠ .unencodable) : Reached start (s.started c w).demux heard := by
  unfold State.started
  cases s.kind c with
  | request body =>
    dsimp only
    split
    · exact reached_leave h hc rfl
    · exact reached_acquireWriteLock h hc hw
  | notify body => exact reached_acquireWriteLock h hc hw
  | start => exact reached_leave h hc rfl
  | close => exact reached_leave h hc rfl

theorem reached_underStartLock (h : Reached start s.demux heard) (hc : s.demux.stage c = .idle)
    (hw : w ≠ .unencodable) : Reached start (s.underStartLock c w).demux heard := by
  unfold State.underStartLock
  split
  · exact reached_leave h hc rfl
  · split
    · exact reached_started h hc hw
    · exact reached_moveTo_idle (s := s.setStartLock _) h hc rfl

theorem reached_start (h : Reached start s.demux heard) (hc : s.demux.stage c = .idle)
    (hw : w ≠ .unencodable) : Reached start (s.start c w).demux heard := by
  unfold State.start
  split
  · exact reached_leave h hc rfl
  · split
    · exact reached_started h hc hw
    · split
      · exact reached_underStartLock h hc hw
      · exact reached_moveTo_idle (s := s.setStartLock _) h hc rfl

theorem reached_closeReturns (h : Reached start s.demux heard) (hc : s.demux.stage c = .idle) :
    Reached start (s.closeReturns c).demux heard :=
  reached_leave (s := s.detachProcessState.setCloseLock _) h.clear hc rfl

theorem reached_stopReaderTasks (h : Reached start s.demux heard) (hc : s.demux.stage c = .idle) :
    Reached start (s.stopReaderTasks c).demux heard := by
  unfold State.stopReaderTasks
  split
  · exact reached_closeReturns h hc
  · have hsame := demux_cancelReaders (s := s) s.stdoutTask s.stderrTask
    refine reached_moveTo_idle ?_ ?_ rfl
    · rw [hsame]
      exact h
    · rw [hsame]
      exact hc

theorem reached_underCloseLock (h : Reached start s.demux heard) (hc : s.demux.stage c = .idle) :
    Reached start (s.underCloseLock c).demux heard := by
  have hfail : Reached start (((s.failAllPending .closed).setClosed).setCloseLock
      (s.closeLock.take c)).demux heard := h.failAll .closed
  unfold State.underCloseLock
  dsimp only
  split
  · split
    · exact reached_stopReaderTasks hfail hc
    · exact reached_moveTo_idle hfail hc rfl
  · exact reached_stopReaderTasks hfail hc

theorem reached_close (h : Reached start s.demux heard) (hc : s.demux.stage c = .idle) :
    Reached start (s.close c).demux heard := by
  unfold State.close
  split
  · exact reached_underCloseLock h hc
  · exact reached_moveTo_idle (s := s.setCloseLock _) h hc rfl

end Coroutines

/-! ### One step -/

def responseOf (bytes : List Byte) : Option (ℤ × Members) :=
  match messageOf bytes with
  | none => none
  | some message =>
    match message.lookup idKey, message.lookup methodKey with
    | some (.int n), none => some (n, message)
    | _, _ => none

variable {bytes : List Byte}

theorem idOf?_of_responseOf {named : ℤ × Members}
    (h : responseOf bytes = some named) : idOf? bytes = some named := by
  unfold responseOf at h
  split at h
  · cases h
  next message hmessage =>
  split at h
  · next n hid _ =>
    cases h
    simp [idOf?, hmessage, hid, intOf?]
  · cases h

section Steps

open Demux

variable (raises : List Byte → Bool)

/-- What a step lets the call `c` hear: the response on the line that is read, if it is under the id
that the call is registered under. -/
def heardIn (s : State) (e : Event) (c : CallId) : List Members :=
  match e with
  | .line _ bytes =>
    if raises bytes then []
    else
      match responseOf bytes with
      | some (n, message) => if (s.demux.stage c).hears n then [message] else []
      | none => []
  | _ => []

/-- A step that leaves the requests to their responses: no line that is read for the id of an open
request is anything but a response, no line makes the reader raise while a request is open, and no
request leaves its write by a cancellation or an error of the encoder. -/
def Clean (s : State) : Event → Prop
  | .begin _ _ w => w ≠ .unencodable
  | .enter _ w => w ≠ .unencodable
  | .spawned _ w => w ≠ .unencodable
  | .cancel c => ∀ id, s.point c ≠ .draining (some id)
  | .line _ bytes =>
    if raises bytes then ∀ id c, (id, c) ∈ s.pending → (s.futures c).isWaiting = false
    else ∀ n message, idOf? bytes = some (n, message) → ∀ id c, (id, c) ∈ s.pending →
      (id : ℤ) = n → (s.futures c).isWaiting = true → (responseOf bytes).isSome = true
  | _ => True

variable {raises} {s s' : State} {e : Event} {heard : Heard}

theorem reached_dispatch (h : s.demux.Sound heard) {k : ChildId}
    (hraises : raises bytes = false) (hclean : Clean raises s (.line k bytes)) :
    Reached s.demux (s.dispatchStdoutLine bytes).demux
      fun c => heard c ++ heardIn raises s (.line k bytes) c := by
  simp only [Clean, hraises, Bool.false_eq_true, if_false] at hclean
  rw [demux_dispatchStdoutLine]
  cases hid : idOf? bytes with
  | none =>
    have hno : responseOf bytes = none := by
      cases hr : responseOf bytes with
      | none => rfl
      | some named =>
        rw [idOf?_of_responseOf hr] at hid
        cases hid
    simp only [heardIn, hraises, hno, Bool.false_eq_true, if_false, List.append_nil]
    exact Reached.refl h
  | some named =>
    obtain ⟨n, message⟩ := named
    have hheard : (fun c => heard c ++ heardIn raises s (.line k bytes) c) = fun c =>
        heard c ++ if (responseOf bytes).isSome && (s.demux.stage c).hears n then [message] else [] := by
      funext c
      simp only [heardIn, hraises, Bool.false_eq_true, if_false]
      cases hr : responseOf bytes with
      | none => rfl
      | some named =>
        have hsame := idOf?_of_responseOf hr
        rw [hid] at hsame
        cases hsame
        rfl
    rw [hheard]
    exact ⟨h.receive n message _ (hclean n message hid), keeps_receive n message⟩

theorem reached_quiet (he : ∀ c, heardIn raises s e c = []) {d d' : Demux}
    (h : Reached d d' heard) : Reached d d' fun c => heard c ++ heardIn raises s e c := by
  have hsame : (fun c => heard c ++ heardIn raises s e c) = heard := by
    funext c
    rw [he c, List.append_nil]
  rw [hsame]
  exact h

theorem stage_demux (c : CallId) : s.demux.stage c = (s.point c).stage := rfl

theorem reached_beginCall (h : s.demux.Sound heard) {c : CallId} (hp : s.point c = .absent)
    (kind : Kind) {w : Write} (hw : w ≠ .unencodable) :
    Reached s.demux (s.beginCall c kind w).demux heard := by
  have hidle : s.demux.stage c = .idle := congrArg Point.stage hp
  have hsame : (s.setCall c ⟨kind, .absent, false⟩).demux = s.demux := by
    rw [demux_setCall]
    exact moveTo_of_eq hidle
  have hentered : Reached s.demux (s.setCall c ⟨kind, .absent, false⟩).demux heard := by
    rw [hsame]
    exact Reached.refl h
  rw [← hsame] at hidle
  unfold State.beginCall
  cases kind with
  | close => exact reached_close hentered hidle
  | start => exact reached_start hentered hidle hw
  | request body => exact reached_start hentered hidle hw
  | notify body => exact reached_start hentered hidle hw

theorem reached_enter (h : s.demux.Sound heard) {c : CallId} {w : Write}
    (hw : w ≠ .unencodable) (hstep : s.enter c w = some s') :
    Reached s.demux s'.demux heard := by
  have hidle : ∀ p, s.point c = p → p.stage = .idle → s.demux.stage c = .idle :=
    fun p hp hi => by rw [stage_demux, hp, hi]
  unfold State.enter at hstep
  cases hp : s.point c <;> simp only [hp] at hstep
  case startLock =>
    split at hstep
    · cases hstep
      have hlock : Reached s.demux (s.setStartLock (s.startLock.dequeue c)).demux heard :=
        Reached.refl h
      exact reached_underStartLock hlock (hidle _ hp rfl) hw
    · cases hstep
  case writeLock =>
    split at hstep
    · cases hstep
      have hlock : Reached s.demux (s.setWriteLock (s.writeLock.dequeue c)).demux heard :=
        Reached.refl h
      exact reached_underWriteLock hlock (hidle _ hp rfl) hw
    · cases hstep
  case closeLock =>
    split at hstep
    · cases hstep
      have hlock : Reached s.demux (s.setCloseLock (s.closeLock.dequeue c)).demux heard :=
        Reached.refl h
      exact reached_underCloseLock hlock (hidle _ hp rfl)
    · cases hstep
  all_goals cases hstep

theorem reached_interrupt (h : s.demux.Sound heard) {c : CallId} {id : ℕ}
    (hc : s.demux.stage c = .registered id) (interrupt : Option Interrupt) :
    Reached s.demux ((s.cancelFuture c).moveTo c (.responding id interrupt)).demux heard := by
  rw [demux_moveTo, demux_cancelFuture, Point.stage, ← cancelFuture_moveTo, moveTo_of_eq hc]
  exact (Reached.refl h).cancelFuture (by rw [hc]; nofun)

theorem reached_cancelCall (h : s.demux.Sound heard) {c : CallId}
    (hclean : ∀ id, s.point c ≠ .draining (some id)) (hstep : s.cancelCall c = some s') :
    Reached s.demux s'.demux heard := by
  have hidle : ∀ p, s.point c = p → p.stage = .idle → s.demux.stage c = .idle :=
    fun p hp hi => by rw [stage_demux, hp, hi]
  unfold State.cancelCall at hstep
  cases hp : s.point c with
  | absent | left =>
    simp [hp] at hstep
  | startLock | spawning | writeLock | closeLock | terminating | killing | stopping =>
    simp only [hp, Option.some.injEq] at hstep
    subst hstep
    rw [demux_leave]
    exact (Reached.refl h).leaveIdle (hidle _ hp rfl) rfl
  | draining id =>
    cases id with
    | some id => exact absurd hp (hclean id)
    | none =>
      simp only [hp, Option.some.injEq] at hstep
      subst hstep
      rw [demux_leave]
      exact (Reached.refl h).leaveIdle (hidle _ hp rfl) rfl
  | responding id interrupt =>
    simp only [hp, Option.some.injEq] at hstep
    subst hstep
    exact reached_interrupt h (by rw [stage_demux, hp]; rfl) _

theorem reached_drained (h : s.demux.Sound heard) {c : CallId} {id : Option ℕ}
    (hp : s.point c = .draining id) : Reached s.demux (s.drained c id).demux heard := by
  have hstage := stage_demux (s := s) c
  rw [hp] at hstage
  cases id with
  | none =>
    exact reached_leave (s := s.setWriteLock s.writeLock.release) (Reached.refl h) hstage rfl
  | some id =>
    have hsame : (s.drained c (some id)).demux = s.demux.moveTo c (.registered id) :=
      demux_awaitResponse id
    have hid : s.demux.stage c = .registered id := hstage
    rw [hsame, moveTo_of_eq hid]
    exact Reached.refl h

theorem reached_drainFailed (h : s.demux.Sound heard) {c : CallId} {id : Option ℕ}
    (hp : s.point c = .draining id) : Reached s.demux (s.drainFailed c id).demux heard := by
  have hstage := stage_demux (s := s) c
  rw [hp] at hstage
  cases id with
  | none =>
    exact reached_leave (s := s.setWriteLock s.writeLock.release) (Reached.refl h) hstage rfl
  | some id =>
    have hsame : (s.drainFailed c (some id)).demux
        = ((s.demux.pop id).cancelFuture c).moveTo c (.left (.raised .notWritable)) :=
      demux_failWrite id
    rw [hsame]
    exact (Reached.refl h).giveUp hstage rfl

theorem reached_respond (h : s.demux.Sound heard) {c : CallId} {id : ℕ}
    {interrupt : Option Interrupt} {o : Outcome} (hp : s.point c = .responding id interrupt)
    (hfuture : s.futures c = .done o) : Reached s.demux (s.respond c id o).demux heard := by
  have hstage := stage_demux (s := s) c
  rw [hp] at hstage
  have hanswer : AnswersFirst (heard c) o := h.settled c o hfuture
  have hopen : ∀ o, s.demux.stage c ≠ .left o := by
    rw [hstage]
    nofun
  unfold State.respond
  rw [demux_leave]
  split
  · exact ((Reached.refl h).pop id).leave hopen (h.notMem_pop hstage) hanswer
  · next hno =>
    refine (Reached.refl h).leave hopen (fun id' hmem => ?_) hanswer
    have hown := h.owned id' c hmem
    rw [hstage] at hown
    cases hown
    exact hno hmem

theorem reached_interrupted (h : s.demux.Sound heard) {c : CallId} {id : ℕ} {interrupt : Interrupt}
    (hp : s.point c = .responding id (some interrupt)) :
    Reached s.demux (s.interrupted c id interrupt).demux heard := by
  have hstage := stage_demux (s := s) c
  rw [hp] at hstage
  unfold State.interrupted
  rw [demux_leave, demux_cancelFuture, demux_pop]
  refine (Reached.refl h).giveUp hstage ?_
  cases interrupt <;> rfl

theorem reached_step (h : s.demux.Sound heard) (hclean : Clean raises s e)
    (hstep : step raises s e = some s') :
    Reached s.demux s'.demux fun c => heard c ++ heardIn raises s e c := by
  have hrefl : Reached s.demux s.demux heard := Reached.refl h
  cases e with
  | line k bytes =>
    obtain ⟨-, -, -, hnext⟩ := reader_eq_some hstep
    cases hraises : raises bytes with
    | false =>
      rw [hraises] at hnext
      subst hnext
      exact reached_dispatch h hraises hclean
    | true =>
      rw [hraises] at hnext
      subst hnext
      have hnone : (fun c => heard c ++ heardIn raises s (.line k bytes) c) = heard := by
        funext c
        simp [heardIn, hraises]
      rw [hnone]
      exact hrefl.failAll .readerFailed
  | begin c kind w =>
    refine reached_quiet (fun _ => rfl) ?_
    simp only [step] at hstep
    split at hstep
    · next hp =>
      cases hstep
      exact reached_beginCall h hp kind hclean
    · cases hstep
  | enter c w => exact reached_quiet (fun _ => rfl) (reached_enter h hclean hstep)
  | spawned c w =>
    refine reached_quiet (fun _ => rfl) ?_
    simp only [step] at hstep
    split at hstep
    · next hp =>
      cases hstep
      have hadopt : Reached s.demux (s.adoptChild.setStartLock s.startLock.release).demux heard :=
        hrefl
      exact reached_started hadopt (by rw [stage_demux]; exact congrArg Point.stage hp) hclean
    · cases hstep
  | spawnFailed c =>
    refine reached_quiet (fun _ => rfl) ?_
    simp only [step] at hstep
    split at hstep
    · next hp =>
      cases hstep
      exact reached_leave (s := s.setStartLock s.startLock.release) hrefl
        (congrArg Point.stage hp) rfl
    · cases hstep
  | drained c =>
    refine reached_quiet (fun _ => rfl) ?_
    simp only [step] at hstep
    split at hstep
    · next hp =>
      cases hstep
      exact reached_drained h hp
    · cases hstep
  | drainFailed c =>
    refine reached_quiet (fun _ => rfl) ?_
    simp only [step] at hstep
    split at hstep
    · next hp =>
      cases hstep
      exact reached_drainFailed h hp
    · cases hstep
  | resume c =>
    refine reached_quiet (fun _ => rfl) ?_
    simp only [step] at hstep
    split at hstep
    · next hp hfuture =>
      cases hstep
      exact reached_respond h hp hfuture
    · cases hstep
  | deadline c =>
    refine reached_quiet (fun _ => rfl) ?_
    simp only [step] at hstep
    split at hstep
    · next hp =>
      split at hstep
      · cases hstep
        exact reached_interrupt h (congrArg Point.stage hp) _
      · cases hstep
    · cases hstep
  | cancel c => exact reached_quiet (fun _ => rfl) (reached_cancelCall h hclean hstep)
  | interrupted c =>
    refine reached_quiet (fun _ => rfl) ?_
    simp only [step] at hstep
    split at hstep
    · next hp =>
      cases hstep
      exact reached_interrupted h hp
    · cases hstep
  | readerStarts k =>
    refine reached_quiet (fun _ => rfl) ?_
    obtain ⟨-, -, -, hnext⟩ := reader_eq_some hstep
    subst hnext
    split
    · exact hrefl.failAll .processUnavailable
    · exact hrefl
  | eof k =>
    refine reached_quiet (fun _ => rfl) ?_
    obtain ⟨-, -, -, hnext⟩ := reader_eq_some hstep
    subst hnext
    exact hrefl.failAll .processExited
  | readFailed k =>
    refine reached_quiet (fun _ => rfl) ?_
    obtain ⟨-, -, -, hnext⟩ := reader_eq_some hstep
    subst hnext
    exact hrefl.failAll .readerFailed
  | readerStops k =>
    refine reached_quiet (fun _ => rfl) ?_
    obtain ⟨-, -, -, hnext⟩ := reader_eq_some hstep
    subst hnext
    exact hrefl
  | stderrEnds k =>
    refine reached_quiet (fun _ => rfl) ?_
    simp only [step] at hstep
    split at hstep
    · split at hstep
      · cases hstep
        exact hrefl
      · cases hstep
    · cases hstep
  | stderrStops k =>
    refine reached_quiet (fun _ => rfl) ?_
    simp only [step] at hstep
    split at hstep
    · split at hstep
      · cases hstep
        exact hrefl
      · cases hstep
    · cases hstep
  | exits k =>
    refine reached_quiet (fun _ => rfl) ?_
    cases hstep
    exact hrefl
  | shutdownTimeout c =>
    refine reached_quiet (fun _ => rfl) ?_
    simp only [step] at hstep
    split at hstep
    · next hp =>
      cases hstep
      exact reached_moveTo_idle hrefl (congrArg Point.stage hp) rfl
    · cases hstep
  | waited c =>
    refine reached_quiet (fun _ => rfl) ?_
    simp only [step] at hstep
    split at hstep
    · next hp =>
      split at hstep
      · cases hstep
        exact reached_stopReaderTasks hrefl (congrArg Point.stage hp)
      · cases hstep
    · next hp =>
      split at hstep
      · cases hstep
        exact reached_stopReaderTasks hrefl (congrArg Point.stage hp)
      · cases hstep
    · cases hstep
  | gathered c =>
    refine reached_quiet (fun _ => rfl) ?_
    simp only [step] at hstep
    split at hstep
    · next hp =>
      split at hstep
      · cases hstep
        exact reached_closeReturns hrefl (congrArg Point.stage hp)
      · cases hstep
    · cases hstep
  | abandon =>
    refine reached_quiet (fun _ => rfl) ?_
    cases hstep
    exact hrefl.clear

end Steps

/-! ### Whole runs -/

section Runs

open Demux

variable (raises : List Byte → Bool)

/-- The responses that were read for the call `c` while it was registered. -/
def heardBy (trace : List Transition) (c : CallId) : List Members :=
  trace.flatMap fun t => heardIn raises t.before t.event c

/-- The future of the call `c` is settled in this step. -/
def Transition.settles (t : Transition) (c : CallId) : Bool :=
  (t.before.futures c).isWaiting && !(t.after.futures c).isWaiting

def Point.hasLeft : Point → Bool
  | .left _ => true
  | _ => false

/-- The call `c` returns or raises in this step. -/
def Transition.leaves (t : Transition) (c : CallId) : Bool :=
  !(t.before.point c).hasLeft && (t.after.point c).hasLeft

structure AnswersOwn (trace : List Transition) (s : State) : Prop where
  /-- Two requests that ever had one id are the same, and no id is written twice. -/
  ids : (∀ t ∈ trace, ∀ t' ∈ trace, ∀ c c' id, t.after.demux.stage c = .registered id →
      t'.after.demux.stage c' = .registered id → c = c') ∧
    (s.written.filterMap Line.id).Nodup
  /-- A result, a server error or a bad-result error is what the first response says that was read
  for the request while it waited. -/
  first : ∀ c o, s.point c = .left o → o.isAnswer = true →
    ∃ m, (heardBy raises trace c).head? = some m ∧ o = answered m
  /-- A line settles no request but by a response to it. -/
  only : ∀ t ∈ trace, ∀ k bytes, t.event = .line k bytes → ∀ c, t.settles c = true →
    heardIn raises t.before t.event c ≠ []
  /-- A future is settled once, and a call returns or raises once. -/
  once : ∀ c, (trace.filter fun t => t.settles c).length ≤ 1 ∧
    (trace.filter fun t => t.leaves c).length ≤ 1
  /-- A call that has returned or raised has no entry in the table. -/
  gone : ∀ c o, s.point c = .left o → ∀ id, (id, c) ∉ s.pending

variable {raises} {trace : List Transition} {s : State}

theorem sound_initial : initial.demux.Sound fun _ => [] where
  keys := List.nodup_nil
  fresh := nofun
  distinct := nofun
  owned := nofun
  unheard := nofun
  settled := nofun
  left := nofun
  idle _ _ := ⟨rfl, rfl⟩
  sentOnce := List.nodup_nil
  sentBefore := nofun

theorem heardBy_concat (t : Transition) :
    heardBy raises (trace ++ [t]) = fun c =>
      heardBy raises trace c ++ heardIn raises t.before t.event c := by
  funext c
  simp [heardBy]

theorem Run.sound (h : Run raises trace s)
    (hclean : ∀ t ∈ trace, Clean raises t.before t.event) :
    s.demux.Sound (heardBy raises trace) := by
  induction h with
  | init => exact sound_initial
  | next h hstep ih =>
    rw [List.forall_mem_append, List.forall_mem_singleton] at hclean
    rw [heardBy_concat]
    exact (reached_step (ih hclean.1) hclean.2 hstep).toSound

/-- An id that a request ever had is behind the next one, and only that request can have it. -/
theorem Run.taken (h : Run raises trace s) (hclean : ∀ t ∈ trace, Clean raises t.before t.event) :
    ∀ t ∈ trace, ∀ c id, t.after.demux.stage c = .registered id →
      id < s.demux.nextId ∧ ∀ c', s.demux.stage c' = .registered id → c = c' := by
  induction h with
  | init => exact fun t ht => absurd ht List.not_mem_nil
  | @next trace s s' e h hstep ih =>
    rw [List.forall_mem_append, List.forall_mem_singleton] at hclean
    have hreached := reached_step (h.sound hclean.1) hclean.2 hstep
    rw [List.forall_mem_append, List.forall_mem_singleton]
    constructor
    · intro t ht c id hst
      obtain ⟨hlt, honly⟩ := ih hclean.1 t ht c id hst
      refine ⟨hlt.trans_le hreached.keeps.nextId, fun c' hst' => ?_⟩
      rcases hreached.keeps.taken c' id hst' with hst' | hle
      · exact honly c' hst'
      · exact absurd hlt (not_lt.mpr hle)
    · intro c id hst
      exact ⟨hreached.toSound.fresh c id hst, fun c' hst' => hreached.toSound.distinct c c' id hst hst'⟩

theorem Run.ids (h : Run raises trace s) (hclean : ∀ t ∈ trace, Clean raises t.before t.event) :
    ∀ t ∈ trace, ∀ t' ∈ trace, ∀ c c' id, t.after.demux.stage c = .registered id →
      t'.after.demux.stage c' = .registered id → c = c' := by
  induction h with
  | init => exact fun t ht => absurd ht List.not_mem_nil
  | @next trace s s' e h hstep ih =>
    have htaken := (Run.next h hstep).taken hclean
    have hsound := (Run.next h hstep).sound hclean
    rw [List.forall_mem_append, List.forall_mem_singleton] at hclean
    intro t ht t' ht' c c' id hst hst'
    rcases List.mem_append.mp ht with hold | hnew
    · rcases List.mem_append.mp ht' with hold' | hnew'
      · exact ih hclean.1 t hold t' hold' c c' id hst hst'
      · rw [List.mem_singleton.mp hnew'] at hst'
        exact (htaken t ht c id hst).2 c' hst'
    · rw [List.mem_singleton.mp hnew] at hst
      rcases List.mem_append.mp ht' with hold' | hnew'
      · exact ((htaken t' ht' c' id hst').2 c hst).symm
      · rw [List.mem_singleton.mp hnew'] at hst'
        exact hsound.distinct c c' id hst hst'

theorem mem_of_settled_receive {d : Demux} {n : ℤ} {message : Members} {c : CallId}
    (hbefore : (d.futures c).isWaiting = true)
    (hafter : ((d.receive n message).futures c).isWaiting = false) :
    ∃ id, (id, c) ∈ d.pending ∧ (id : ℤ) = n := by
  unfold Demux.receive at hafter
  cases hfind : d.pending.find? fun p => (p.1 : ℤ) = n with
  | none =>
    simp only [hfind, hbefore] at hafter
    cases hafter
  | some entry =>
    obtain ⟨id, c'⟩ := entry
    have hmem : (id, c') ∈ d.pending := List.mem_of_find?_eq_some hfind
    have hid : (id : ℤ) = n := by simpa using List.find?_some hfind
    by_cases hcc : c = c'
    · exact ⟨id, hcc ▸ hmem, hid⟩
    · simp only [hfind] at hafter
      split at hafter
      · rw [futures_setFuture_of_ne hcc] at hafter
        rw [show (d.pop id).futures c = d.futures c from rfl, hbefore] at hafter
        cases hafter
      · rw [show (d.pop id).futures c = d.futures c from rfl, hbefore] at hafter
        cases hafter

theorem heard_of_settles {s s' : State} {heard : Heard} (h : s.demux.Sound heard) {k : ChildId}
    (hclean : Clean raises s (.line k bytes))
    (hstep : step raises s (.line k bytes) = some s') {c : CallId}
    (hbefore : (s.futures c).isWaiting = true) (hafter : (s'.futures c).isWaiting = false) :
    heardIn raises s (.line k bytes) c ≠ [] := by
  obtain ⟨-, -, -, hnext⟩ := reader_eq_some hstep
  cases hraises : raises bytes with
  | true =>
    simp only [Clean, hraises, if_true] at hclean
    rw [hraises, if_pos rfl] at hnext
    subst hnext
    have hfail : (s.readerEnds k .readerFailed).futures
        = (s.demux.failAll .readerFailed).futures := rfl
    rw [hfail] at hafter
    simp only [Demux.failAll] at hafter
    split at hafter
    · next hmem =>
      obtain ⟨⟨id, c'⟩, hentry, rfl⟩ := List.mem_map.mp hmem.1
      have hclosed := hclean id c' hentry
      rw [hbefore] at hclosed
      cases hclosed
    · have hsame : s.demux.futures c = s.futures c := rfl
      rw [hsame, hbefore] at hafter
      cases hafter
  | false =>
    simp only [Clean, hraises, Bool.false_eq_true, if_false] at hclean
    rw [hraises, if_neg (by decide)] at hnext
    subst hnext
    have hfutures : ((s.dispatchStdoutLine bytes).demux.futures c).isWaiting = false := hafter
    rw [demux_dispatchStdoutLine] at hfutures
    cases hid : idOf? bytes with
    | none =>
      simp only [hid] at hfutures
      rw [show s.demux.futures c = s.futures c from rfl, hbefore] at hfutures
      cases hfutures
    | some named =>
      obtain ⟨n, message⟩ := named
      simp only [hid] at hfutures
      obtain ⟨id, hmem, hn⟩ := mem_of_settled_receive hbefore hfutures
      have hresponse := hclean n message hid id c hmem hn hbefore
      obtain ⟨named, hr⟩ := Option.isSome_iff_exists.mp hresponse
      have hsame := idOf?_of_responseOf hr
      rw [hid] at hsame
      cases hsame
      have hhears : (s.demux.stage c).hears n = true := by
        rw [h.owned id c hmem]
        exact decide_eq_true hn
      simp [heardIn, hraises, hr, hhears]

theorem hasLeft_iff {p : Point} : p.hasLeft = true ↔ ∃ o, p.stage = .left o := by
  cases p with
  | draining id => cases id <;> simp [Point.hasLeft, Point.stage]
  | left o => simp [Point.hasLeft, Point.stage]
  | _ => simp [Point.hasLeft, Point.stage]

theorem length_filter_concat {p : Transition → Bool} {t : Transition} (before after : Bool)
    (hp : p t = (!before && after)) (hkept : before = true → after = true)
    (h : (trace.filter p).length ≤ before.toNat) :
    ((trace ++ [t]).filter p).length ≤ after.toNat := by
  rw [List.filter_append, List.length_append, List.filter_singleton, hp]
  cases before with
  | true =>
    rw [hkept rfl]
    exact h
  | false =>
    cases after with
    | true => simpa using h
    | false => simpa using h

theorem Run.once (h : Run raises trace s) (hclean : ∀ t ∈ trace, Clean raises t.before t.event)
    (c : CallId) :
    (trace.filter fun t => t.settles c).length ≤ (!(s.futures c).isWaiting).toNat ∧
      (trace.filter fun t => t.leaves c).length ≤ (s.point c).hasLeft.toNat := by
  induction h with
  | init => exact ⟨le_rfl, le_rfl⟩
  | @next trace s s' e h hstep ih =>
    rw [List.forall_mem_append, List.forall_mem_singleton] at hclean
    have hkeeps := (reached_step (h.sound hclean.1) hclean.2 hstep).keeps
    obtain ⟨hsettles, hleaves⟩ := ih hclean.1
    constructor
    · refine length_filter_concat (!(s.futures c).isWaiting) _ ?_ ?_ hsettles
      · simp [Transition.settles]
      · intro hdone
        rw [Bool.not_eq_true'] at hdone ⊢
        rw [show s'.futures c = s.futures c from hkeeps.futures c hdone]
        exact hdone
    · refine length_filter_concat _ _ rfl (fun hleft => ?_) hleaves
      obtain ⟨o, ho⟩ := hasLeft_iff.mp hleft
      exact hasLeft_iff.mpr ⟨o, hkeeps.left c o ho⟩

end Runs

/-! ### A request of the server's own -/

def lineOf (members : Members) : List Byte := Utf8.encode (Json.dumps true (.obj members))

/-- The server's own request `ping`, with the id 1. -/
def ping : List Byte :=
  lineOf [(idKey, .int 1), (methodKey, .str (Json.word ['p', 'i', 'n', 'g']))]

def emptyResult : List Byte := lineOf [(idKey, .int 1), (resultKey, .obj [])]

def oneRequest (bytes : List Byte) : List Event :=
  [.begin 0 (.request []) .sent, .spawned 0 .sent, .readerStarts 0, .line 0 bytes, .resume 0]

def Point.isBadResult : Point → Bool
  | .left (.raised .badResult) => true
  | _ => false

theorem clean_transitions {raises : List Byte → Bool} {es : List Event} {s s' : State}
    {trace : List Transition} (hes : transitions raises s es = some (trace, s'))
    (hclean : ∀ e ∈ es, ∀ s, Clean raises s e) : ∀ t ∈ trace, Clean raises t.before t.event := by
  induction es generalizing s s' trace with
  | nil =>
    cases hes
    exact fun t ht => absurd ht List.not_mem_nil
  | cons e es ih =>
    unfold transitions at hes
    rw [List.forall_mem_cons] at hclean
    cases hstep : step raises s e with
    | none => simp [hstep] at hes
    | some next =>
      simp only [hstep, Option.map_eq_some_iff, Prod.mk.injEq] at hes
      obtain ⟨⟨rest, last⟩, hrest, rfl, rfl⟩ := hes
      exact List.forall_mem_cons.mpr ⟨hclean.1 s, ih hrest hclean.2⟩

end VidbyteSdk.Tools.Mcp
