import VidbyteSdk.Tools.Mcp.Shutdown

/-!
# What a run leaves behind

The transport stays in order in every run in which no close overtakes a spawn and no request has to
wait to write its line. What the closed transport has left behind is read off its order.
-/

namespace VidbyteSdk.Tools.Mcp

open Lib

/-- Some ownership of the ids has the transport in order. -/
def State.InOrder (s : State) : Prop := ∃ owner, Tidy owner s

/-- A request writes its line without a suspension. -/
def State.Prompt (s : State) (w : Write) : Prop := s.writeLock.isFree = true ∧ w ≠ .full

/-- A step in which no close overtakes a start, and no request waits to write. -/
def Calm (s : State) : Event → Prop
  | .begin _ kind w =>
    (kind.isRequest = true → s.closed = true ∨ s.process = none ∨ s.Prompt w) ∧
      (kind.isClose = true → s.closeLock.isFree = true → s.NoneStarts)
  | .enter c w =>
    match s.point c with
    | .startLock => (s.kind c).isRequest = true → s.closed = true ∨ s.process = none ∨ s.Prompt w
    | .closeLock => s.NoneStarts
    | _ => True
  | .spawned c w => s.closed = false ∧ ((s.kind c).isRequest = true → s.Prompt w)
  -- `abandon` gives the child up without ending it
  | .abandon => False
  | _ => True

section Arrivals

variable {owner : ℕ → CallId} {s : State} {c : CallId} {w : Write}

theorem Tidy.inOrder (h : Tidy owner s) : s.InOrder := ⟨owner, h⟩

theorem TidyBut.writeLine (h : TidyBut owner c s) (id : Option ℕ) (body : Text) :
    TidyBut owner c (s.writeLine id body) := ⟨h.life, h.calls⟩

theorem TidyBut.setWriteLock (h : TidyBut owner c s) (lock : Lock) :
    TidyBut owner c (s.setWriteLock lock) := ⟨h.life, h.calls⟩

theorem TidyBut.setCloseLock (h : TidyBut owner c s) (lock : Lock) :
    TidyBut owner c (s.setCloseLock lock) := ⟨h.life, h.calls⟩

theorem TidyBut.setStartLock (h : TidyBut owner c s) {lock : Lock}
    (hholder : lock.holder = s.startLock.holder) : TidyBut owner c (s.setStartLock lock) := by
  have hlife : (s.setStartLock lock).life = s.life := by
    simp only [State.life, State.setStartLock, hholder]
  refine h.change rfl ?_ fun c' kind point armed hcc hcall => ?_
  · rw [hlife]
    exact h.life
  · rw [hlife]
    exact hcall

theorem TidyBut.failWrite (h : TidyBut owner c s) {id : ℕ} (hid : owner id = c) :
    Tidy owner (s.failWrite c id) := (h.pop hid).cancelFuture.leave rfl

theorem TidyBut.sendRequest (h : TidyBut owner c s) (hopen : s.closed = false) {body : Text}
    (hkind : (s.kind c).isRequest = true) (hw : w ≠ .full) :
    (s.sendRequest c body w).InOrder := by
  have hregister := h.register hopen
  have hmine : Function.update owner s.nextId c s.nextId = c := Function.update_self ..
  cases w with
  | full => exact absurd rfl hw
  | unencodable => exact (hregister.leave rfl).inOrder
  | broken => exact ((hregister.writeLine _ _).failWrite hmine).inOrder
  | sent =>
    refine ⟨_, (hregister.writeLine (some s.nextId) body).setCall
      ⟨hkind, rfl, hmine, Nat.lt_succ_self _, fun _ => ?_⟩⟩
    exact List.mem_append_right _ (List.mem_singleton_self _)

theorem TidyBut.sendNotification (h : TidyBut owner c s) {body : Text}
    (hkind : s.kind c = .notify body) : Tidy owner (s.sendNotification c body w) := by
  cases w with
  | unencodable => exact h.leave rfl
  | broken => exact (h.writeLine none body).leave rfl
  | sent =>
    refine (h.writeLine none body).leaveOther ?_ .returned
    rw [show (s.writeLine none body).kind c = .notify body from hkind]
    rfl
  | full =>
    refine ((h.writeLine none body).setWriteLock _).setCall ⟨?_, rfl⟩
    rw [show ((s.writeLine none body).setWriteLock (s.writeLock.take c)).calls c = s.calls c from rfl,
      show (s.calls c).kind = .notify body from hkind]
    rfl

theorem TidyBut.underWriteLock (h : TidyBut owner c s)
    (hkind : (s.kind c).isRequest = true ∧ w ≠ .full ∨ (s.kind c).isNotify = true) :
    (s.underWriteLock c w).InOrder := by
  unfold State.underWriteLock
  split
  · exact (h.leave rfl).inOrder
  · next hgoes =>
    rw [Bool.or_eq_true, not_or, Bool.not_eq_true] at hgoes
    cases hk : s.kind c with
    | request body =>
      rw [hk] at hkind
      have hw : w ≠ .full := hkind.elim And.right nofun
      exact h.sendRequest hgoes.1 (by rw [hk]; rfl) hw
    | notify body => exact (h.sendNotification hk).inOrder
    | start => rw [hk] at hkind; exact absurd hkind (by simp [Kind.isRequest, Kind.isNotify])
    | close => rw [hk] at hkind; exact absurd hkind (by simp [Kind.isRequest, Kind.isNotify])

theorem TidyBut.acquireWriteLock (h : TidyBut owner c s)
    (hkind : (s.kind c).isRequest = true ∧ s.Prompt w ∨ (s.kind c).isNotify = true) :
    (s.acquireWriteLock c w).InOrder := by
  unfold State.acquireWriteLock
  split
  · exact h.underWriteLock (hkind.imp_left fun hk => ⟨hk.1, hk.2.2⟩)
  · next hbusy =>
    have hnotify : (s.kind c).isNotify = true := hkind.elim (fun hk => absurd hk.2.1 hbusy) id
    exact ⟨owner, (h.setWriteLock (s.writeLock.queue c)).setCall hnotify⟩

theorem TidyBut.started (h : TidyBut owner c s) (hclose : (s.kind c).isClose = false)
    (hprompt : (s.kind c).isRequest = true → s.process = none ∨ s.Prompt w) :
    (s.started c w).InOrder := by
  unfold State.started
  cases hk : s.kind c with
  | start => exact (h.leaveOther hclose .returned).inOrder
  | close => exact (h.leaveOther hclose .returned).inOrder
  | notify body => exact h.acquireWriteLock (.inr (by rw [hk]; rfl))
  | request body =>
    have hrequest : (s.kind c).isRequest = true := by rw [hk]; rfl
    simp only
    split
    · exact (h.leave rfl).inOrder
    · next hsome =>
      have hgoes := (hprompt hrequest).resolve_left fun hnone => hsome (by rw [hnone]; rfl)
      exact h.acquireWriteLock (.inl ⟨hrequest, hgoes⟩)

theorem TidyBut.underStartLock (h : TidyBut owner c s) (hclose : (s.kind c).isClose = false)
    (hholder : s.process = none → s.startLock.holder = none)
    (hprompt : (s.kind c).isRequest = true → s.closed = true ∨ s.process = none ∨ s.Prompt w) :
    (s.underStartLock c w).InOrder := by
  unfold State.underStartLock
  split
  · exact (h.leave rfl).inOrder
  · next hopen =>
    split
    · exact h.started hclose fun hrequest => (hprompt hrequest).resolve_left hopen
    · next hnone =>
      rw [Option.not_isSome_iff_eq_none] at hnone
      rw [Bool.not_eq_true] at hopen
      exact ⟨owner, (h.takeStartLock hopen hnone (hholder hnone)).setCall
        ⟨hclose, rfl, fun _ => hopen⟩⟩

theorem TidyBut.start (h : TidyBut owner c s) (hclose : (s.kind c).isClose = false)
    (hprompt : (s.kind c).isRequest = true → s.closed = true ∨ s.process = none ∨ s.Prompt w) :
    (s.start c w).InOrder := by
  unfold State.start
  split
  · exact (h.leave rfl).inOrder
  · next hopen =>
    split
    · exact h.started hclose fun hrequest => (hprompt hrequest).resolve_left hopen
    · split
      · next hfree =>
        rw [Lock.isFree, Bool.and_eq_true, Option.isNone_iff_eq_none] at hfree
        exact h.underStartLock hclose (fun _ => hfree.1) hprompt
      · have hqueued : TidyBut owner c (s.setStartLock (s.startLock.queue c)) := h.setStartLock rfl
        exact ⟨owner, hqueued.setCall ⟨hclose, fun _ hclosed => absurd hclosed hopen⟩⟩

end Arrivals

section Steps

variable {owner : ℕ → CallId} {s s' : State} {c : CallId} {w : Write}

variable {kind : Kind}

theorem Kind.isClose_of_isRequest (h : kind.isRequest = true) :
    kind.isClose = false := by
  cases kind with
  | close => cases h
  | _ => rfl

theorem Kind.isClose_of_isNotify (h : kind.isNotify = true) :
    kind.isClose = false := by
  cases kind with
  | close => cases h
  | _ => rfl

theorem not_notify (h : kind.isRequest = true) : kind.isNotify = false := by
  cases kind with
  | notify body => cases h
  | _ => rfl

/-- What the order says of a call at the point `p`. -/
theorem Tidy.at (h : Tidy owner s) {p : Point} (hp : s.point c = p) :
    CallOk owner s.life c ⟨s.kind c, p, (s.calls c).armed⟩ (s.futures c) := by
  have hcall := h.calls c
  rw [← hp]
  exact hcall

theorem Tidy.beginCall (h : Tidy owner s)
    (hcalm : Calm s (.begin c kind w)) : (s.beginCall c kind w).InOrder := by
  have hbegun := (h.but c).setCallBut ⟨kind, .absent, false⟩
  have hkind : (s.setCall c ⟨kind, .absent, false⟩).kind c = kind :=
    congrArg Call.kind (s.calls_setCall_self c _)
  unfold State.beginCall
  obtain ⟨hprompt, hclose⟩ := hcalm
  have hstart : kind.isClose = false →
      ((s.setCall c ⟨kind, .absent, false⟩).start c w).InOrder := fun hother =>
    hbegun.start (by rw [hkind]; exact hother) (by rw [hkind]; exact hprompt)
  cases kind with
  | close =>
    refine (hbegun.close fun hfree c' hrequest => ?_).inOrder
    by_cases hcc : c' = c
    · rw [hcc, hkind] at hrequest
      cases hrequest
    · have hsame : (s.setCall c ⟨.close, .absent, false⟩).calls c' = s.calls c' :=
        s.calls_setCall_of_ne hcc _
      rw [State.kind, hsame] at hrequest
      rw [State.point, hsame]
      exact hclose rfl hfree c' hrequest
  | start => exact hstart rfl
  | request body => exact hstart rfl
  | notify body => exact hstart rfl

theorem Tidy.enter (h : Tidy owner s) (hcalm : Calm s (.enter c w))
    (hs : s.enter c w = some s') : s'.InOrder := by
  unfold State.enter at hs
  simp only [Calm] at hcalm
  cases hp : s.point c with
  | startLock =>
    rw [hp] at hcalm
    simp only [hp, Option.ite_none_right_eq_some, Option.some.injEq] at hs
    obtain ⟨hgoes, rfl⟩ := hs
    rw [Lock.goesTo, Bool.and_eq_true, Option.isNone_iff_eq_none] at hgoes
    have hwoken : TidyBut owner c (s.setStartLock (s.startLock.dequeue c)) :=
      (h.but c).setStartLock rfl
    exact hwoken.underStartLock (h.at hp).1 (fun _ => hgoes.1) hcalm
  | writeLock =>
    simp only [hp, Option.ite_none_right_eq_some, Option.some.injEq] at hs
    obtain ⟨-, rfl⟩ := hs
    exact ((h.but c).setWriteLock _).underWriteLock (.inr (h.at hp))
  | closeLock =>
    rw [hp] at hcalm
    simp only [hp, Option.ite_none_right_eq_some, Option.some.injEq] at hs
    obtain ⟨-, rfl⟩ := hs
    exact ⟨owner, ((h.but c).setCloseLock (s.closeLock.dequeue c)).underCloseLock hcalm⟩
  | _ => simp [hp] at hs

theorem Tidy.spawned (h : Tidy owner s) (hp : s.point c = .spawning)
    (hcalm : Calm s (.spawned c w)) : (s.spawned c w).InOrder := by
  obtain ⟨hclose, hholder, -⟩ := h.at hp
  exact ((h.but c).adoptChild hcalm.1 hholder).started hclose fun hrequest =>
    .inr (hcalm.2 hrequest)

theorem Tidy.leaveSpawn (h : Tidy owner s) (hp : s.point c = .spawning) {o : Outcome}
    (ho : o.isReturned = false) :
    Tidy owner ((s.setStartLock s.startLock.release).leave c o) :=
  ((h.but c).releaseStartLock (h.at hp).2.1).leave ho

theorem Tidy.drained (h : Tidy owner s) {id : Option ℕ} (hp : s.point c = .draining id) :
    Tidy owner (s.drained c id) := by
  obtain ⟨hnotify, rfl⟩ := h.at hp
  have hreleased := (h.but c).setWriteLock s.writeLock.release
  exact hreleased.leaveOther (Kind.isClose_of_isNotify hnotify) .returned

theorem Tidy.drainFailed (h : Tidy owner s) {id : Option ℕ} (hp : s.point c = .draining id) :
    Tidy owner (s.drainFailed c id) := by
  obtain ⟨hnotify, rfl⟩ := h.at hp
  exact ((h.but c).setWriteLock s.writeLock.release).leave rfl

variable {i : Option Interrupt}

theorem Tidy.respond (h : Tidy owner s) {id : ℕ} {o : Outcome}
    (hp : s.point c = .responding id i) : Tidy owner (s.respond c id o) := by
  obtain ⟨hrequest, -, hid, -⟩ := h.at hp
  have hother := Kind.isClose_of_isRequest hrequest
  unfold State.respond
  split
  · exact ((h.but c).pop hid).leaveOther hother o
  · exact (h.but c).leaveOther hother o

theorem State.calls_cancelFuture : (s.cancelFuture c).calls = s.calls := by
  unfold State.cancelFuture
  split <;> rfl

theorem State.life_cancelFuture : (s.cancelFuture c).life = s.life := by
  unfold State.cancelFuture
  split <;> rfl

theorem Tidy.interrupt (h : Tidy owner s) {id : ℕ}
    (hp : s.point c = .responding id i) (interrupt : Interrupt) :
    Tidy owner ((s.cancelFuture c).moveTo c (.responding id (some interrupt))) := by
  obtain ⟨hrequest, harmed, hid, hlt, -⟩ := h.at hp
  refine (h.but c).cancelFuture.setCall ?_
  rw [State.calls_cancelFuture, State.life_cancelFuture]
  refine ⟨hrequest, harmed, hid, hlt, fun hw => ?_⟩
  rw [isWaiting_cancelFuture] at hw
  cases hw

theorem Tidy.interrupted (h : Tidy owner s) {id : ℕ} {interrupt : Interrupt}
    (hp : s.point c = .responding id i) : Tidy owner (s.interrupted c id interrupt) :=
  ((h.but c).pop (h.at hp).2.2.1).cancelFuture.leave rfl

theorem Tidy.cancelCall (h : Tidy owner s) (hs : s.cancelCall c = some s') :
    Tidy owner s' := by
  have hraised : (Outcome.raised .cancelled).isReturned = false := rfl
  unfold State.cancelCall at hs
  cases hp : s.point c with
  | absent => simp [hp] at hs
  | left o => simp [hp] at hs
  | startLock =>
    simp only [hp, Option.some.injEq] at hs
    have hout : TidyBut owner c (s.setStartLock (s.startLock.dequeue c)) :=
      (h.but c).setStartLock rfl
    exact hs ▸ hout.leave hraised
  | spawning =>
    simp only [hp, Option.some.injEq] at hs
    exact hs ▸ h.leaveSpawn hp hraised
  | responding id i =>
    simp only [hp, Option.some.injEq] at hs
    exact hs ▸ h.interrupt hp .cancel
  | writeLock =>
    simp only [hp, Option.some.injEq] at hs
    exact hs ▸ ((h.but c).setWriteLock _).leave hraised
  | draining id =>
    simp only [hp, Option.some.injEq] at hs
    exact hs ▸ ((h.but c).setWriteLock _).leave hraised
  | _ =>
    simp only [hp, Option.some.injEq] at hs
    exact hs ▸ ((h.but c).setCloseLock _).leave hraised

/-! ### The readers -/

theorem CallOk.pop {point : Point} {armed : Bool} {f f' : Future} {id : ℕ}
    (h : CallOk owner s.life c ⟨kind, point, armed⟩ f) (hf' : f'.isWaiting = false) :
    CallOk owner (s.pop id).life c ⟨kind, point, armed⟩ f' := by
  cases point with
  | responding id' interrupt =>
    obtain ⟨hkind, harmed, hown, hlt, -⟩ := h
    exact ⟨hkind, harmed, hown, hlt, fun hw => absurd (hf'.symm.trans hw) Bool.noConfusion⟩
  | _ => exact h

theorem Tidy.dispatchStdoutLine (h : Tidy owner s) (bytes : List Byte) :
    Tidy owner (s.dispatchStdoutLine bytes) := by
  unfold State.dispatchStdoutLine
  cases idOf? bytes with
  | none => exact h
  | some found =>
    obtain ⟨n, message⟩ := found
    simp only
    cases hentry : s.pending.find? fun p => (p.1 : ℤ) = n with
    | none => exact h
    | some entry =>
      obtain ⟨id, c⟩ := entry
      have hid : owner id = c := (h.life.owners _ (List.mem_of_find?_eq_some hentry)).2
      have hpopped := (h.but c).pop hid
      simp only
      split
      · refine (hpopped.setFuture (.done (answered message))).rest ?_
        rw [State.futures_setFuture_self]
        exact (h.calls c).pop rfl
      · next hdone => exact hpopped.rest ((h.calls c).pop (Bool.eq_false_iff.mpr hdone))

theorem Tidy.noneStarts (h : Tidy owner s) (hfree : s.startLock.holder = none) :
    s.NoneStarts := by
  refine fun c _ => ⟨fun hp => ?_, fun _ => hfree⟩
  have hholder : s.startLock.holder = some c := (h.at hp).2.1
  rw [hfree] at hholder
  cases hholder

theorem Tidy.noneStarts_of_mem (h : Tidy owner s) {k : ChildId} {child : Child}
    (hk : s.children[k]? = some child) : s.NoneStarts := by
  refine h.noneStarts ?_
  by_contra hheld
  rw [show s.children = [] from (h.life.inFlight hheld).2] at hk
  cases hk

theorem Child.ages_of_stdout {child : Child} (h : child.stdout ≠ .finished) (r : Reader) :
    child.Ages { child with stdout := r } :=
  ⟨id, fun hfinished => absurd hfinished h, id⟩

theorem Child.ages_stdout_finished (child : Child) : child.Ages { child with stdout := .finished } :=
  ⟨id, fun _ => rfl, id⟩

theorem Child.ages_stderr_finished (child : Child) : child.Ages { child with stderr := .finished } :=
  ⟨id, id, fun _ => rfl⟩

theorem Child.ages_exited (child : Child) : child.Ages { child with exited := true } :=
  ⟨fun _ => rfl, id, id⟩

theorem Tidy.readerEnds (h : Tidy owner s) {k : ChildId} {child : Child}
    (hk : s.children[k]? = some child) (reason : EndReason) :
    Tidy owner (s.readerEnds k reason) :=
  (h.shut (h.noneStarts_of_mem hk) reason).setChild fun child _ => child.ages_stdout_finished

theorem Tidy.waited (h : Tidy owner s) {k : ChildId} (hclosed : s.closed = true)
    (hlt : k < s.children.length) (hexited : s.hasExited k = true) :
    Tidy owner (s.stopReaderTasks c) := by
  refine (h.but c).stopReaderTasks hclosed ?_
  cases hprocess : s.process with
  | none => exact fun child hchild => (h.life.buried hclosed hprocess child hchild).exited
  | some k' =>
    refine h.life.exited_of_hasExited hprocess ?_
    rw [← h.life.eq_of_owned hprocess (List.getElem?_eq_getElem hlt)]
    exact hexited

theorem Tidy.gathered (h : Tidy owner s) {stdout stderr : Option ChildId}
    (hp : s.point c = .stopping stdout stderr) (hstdout : s.isStopped stdout Child.stdout = true)
    (hstderr : s.isStopped stderr Child.stderr = true) : Tidy owner (s.closeReturns c) := by
  obtain ⟨hclosed, hchildren⟩ := h.at hp
  refine (h.but c).closeReturns hclosed fun child hchild => ?_
  obtain ⟨k, hk⟩ := List.mem_iff_getElem?.mp hchild
  obtain ⟨hexited, hout, herr⟩ := hchildren k child hk
  refine ⟨hexited, hout.elim (fun heq => ?_) id, herr.elim (fun heq => ?_) id⟩
  · rw [heq, State.isStopped, hk] at hstdout
    exact of_decide_eq_true hstdout
  · rw [heq, State.isStopped, hk] at hstderr
    exact of_decide_eq_true hstderr

theorem inOrder_step {raises : List Byte → Bool} {e : Event} (h : Tidy owner s) (hcalm : Calm s e)
    (hs : step raises s e = some s') : s'.InOrder := by
  cases e with
  | begin c kind w =>
    simp only [step] at hs
    split at hs
    · exact Option.some.inj hs ▸ h.beginCall hcalm
    · cases hs
  | enter c w => exact h.enter hcalm hs
  | spawned c w =>
    simp only [step] at hs
    split at hs
    · next hp => exact Option.some.inj hs ▸ h.spawned hp hcalm
    · cases hs
  | spawnFailed c =>
    simp only [step] at hs
    split at hs
    · next hp => exact Option.some.inj hs ▸ (h.leaveSpawn hp rfl).inOrder
    · cases hs
  | drained c =>
    simp only [step] at hs
    split at hs
    · next hp => exact Option.some.inj hs ▸ (h.drained hp).inOrder
    · cases hs
  | drainFailed c =>
    simp only [step] at hs
    split at hs
    · next hp => exact Option.some.inj hs ▸ (h.drainFailed hp).inOrder
    · cases hs
  | resume c =>
    simp only [step] at hs
    split at hs
    · next hp _ => exact Option.some.inj hs ▸ (h.respond hp).inOrder
    · cases hs
  | deadline c =>
    simp only [step] at hs
    split at hs
    · next hp =>
      rw [Option.ite_none_right_eq_some] at hs
      exact Option.some.inj hs.2 ▸ (h.interrupt hp .deadline).inOrder
    · cases hs
  | cancel c => exact (h.cancelCall hs).inOrder
  | interrupted c =>
    simp only [step] at hs
    split at hs
    · next hp => exact Option.some.inj hs ▸ (h.interrupted hp).inOrder
    · cases hs
  | readerStarts k =>
    obtain ⟨child, hk, hcreated, rfl⟩ := reader_eq_some hs
    split
    · exact ((h.failAllPending .processUnavailable).setChild
        fun child _ => child.ages_stdout_finished).inOrder
    · refine (h.setChild fun child' hk' => Child.ages_of_stdout ?_ .reading).inOrder
      rw [← Option.some.inj (hk.symm.trans hk'), hcreated]
      exact Reader.noConfusion
  | line k bytes =>
    obtain ⟨child, hk, -, rfl⟩ := reader_eq_some hs
    split
    · exact (h.readerEnds hk .readerFailed).inOrder
    · exact (h.dispatchStdoutLine bytes).inOrder
  | eof k =>
    obtain ⟨child, hk, -, rfl⟩ := reader_eq_some hs
    exact (h.readerEnds hk .processExited).inOrder
  | readFailed k =>
    obtain ⟨child, hk, -, rfl⟩ := reader_eq_some hs
    exact (h.readerEnds hk .readerFailed).inOrder
  | readerStops k =>
    obtain ⟨child, -, -, rfl⟩ := reader_eq_some hs
    exact (h.setChild fun child _ => child.ages_stdout_finished).inOrder
  | stderrEnds k =>
    simp only [step] at hs
    split at hs
    · rw [Option.ite_none_right_eq_some] at hs
      exact Option.some.inj hs.2 ▸ (h.setChild fun child _ => child.ages_stderr_finished).inOrder
    · cases hs
  | stderrStops k =>
    simp only [step] at hs
    split at hs
    · rw [Option.ite_none_right_eq_some] at hs
      exact Option.some.inj hs.2 ▸ (h.setChild fun child _ => child.ages_stderr_finished).inOrder
    · cases hs
  | exits k => exact Option.some.inj hs ▸ (h.setChild fun child _ => child.ages_exited).inOrder
  | shutdownTimeout c =>
    simp only [step] at hs
    split at hs
    · next hp =>
      have hcall := h.at hp
      exact Option.some.inj hs ▸ ⟨owner, (h.but c).setCall hcall⟩
    · cases hs
  | waited c =>
    simp only [step] at hs
    split at hs
    · next hp =>
      rw [Option.ite_none_right_eq_some] at hs
      exact Option.some.inj hs.2 ▸ (h.waited (h.at hp).1 (h.at hp).2 hs.1).inOrder
    · next hp =>
      rw [Option.ite_none_right_eq_some] at hs
      exact Option.some.inj hs.2 ▸ (h.waited (h.at hp).1 (h.at hp).2 hs.1).inOrder
    · cases hs
  | gathered c =>
    simp only [step] at hs
    split at hs
    · next hp =>
      rw [Option.ite_none_right_eq_some, Bool.and_eq_true] at hs
      exact Option.some.inj hs.2 ▸ (h.gathered hp hs.1.1 hs.1.2).inOrder
    · cases hs
  | abandon => exact hcalm.elim

end Steps

/-! ### A closed transport is silent -/

/-- The transport is closed, and the child was written nothing. -/
structure Silent (s s' : State) : Prop where
  closed : s'.closed = true
  written : s'.written = s.written

section Silence

variable {s s' : State} {c : CallId} {w : Write}

theorem silent_underWriteLock (h : s.closed = true) : Silent s (s.underWriteLock c w) := by
  unfold State.underWriteLock
  rw [h, Bool.true_or, if_pos rfl]
  exact ⟨h, rfl⟩

theorem silent_started (h : s.closed = true) : Silent s (s.started c w) := by
  have hacquire : Silent s (s.acquireWriteLock c w) := by
    unfold State.acquireWriteLock
    split
    · exact silent_underWriteLock h
    · exact ⟨h, rfl⟩
  unfold State.started
  split
  · split
    · exact ⟨h, rfl⟩
    · exact hacquire
  · exact hacquire
  · exact ⟨h, rfl⟩

theorem silent_underStartLock (h : s.closed = true) : Silent s (s.underStartLock c w) := by
  unfold State.underStartLock
  rw [if_pos h]
  exact ⟨h, rfl⟩

theorem silent_start (h : s.closed = true) : Silent s (s.start c w) := by
  unfold State.start
  rw [if_pos h]
  exact ⟨h, rfl⟩

theorem silent_stopReaderTasks (h : s.closed = true) : Silent s (s.stopReaderTasks c) := by
  unfold State.stopReaderTasks
  split
  · exact ⟨h, rfl⟩
  · unfold State.cancelReaders
    cases s.stdoutTask with
    | none =>
      cases s.stderrTask with
      | none => exact ⟨h, rfl⟩
      | some k => exact ⟨h, rfl⟩
    | some k =>
      cases s.stderrTask with
      | none => exact ⟨h, rfl⟩
      | some k => exact ⟨h, rfl⟩

theorem silent_underCloseLock : Silent s (s.underCloseLock c) := by
  have hstops : Silent s
      ((((s.failAllPending .closed).setClosed).setCloseLock (s.closeLock.take c)).stopReaderTasks
        c) := by
    obtain ⟨hclosed, hwritten⟩ := silent_stopReaderTasks (c := c)
      (s := ((s.failAllPending .closed).setClosed).setCloseLock (s.closeLock.take c)) rfl
    exact ⟨hclosed, hwritten⟩
  unfold State.underCloseLock
  simp only
  split
  · split
    · exact hstops
    · exact ⟨rfl, rfl⟩
  · exact hstops

theorem silent_close (h : s.closed = true) : Silent s (s.close c) := by
  unfold State.close
  split
  · exact silent_underCloseLock
  · exact ⟨h, rfl⟩

theorem silent_cancelFuture (h : s.closed = true) : Silent s (s.cancelFuture c) := by
  unfold State.cancelFuture
  split
  · exact ⟨h, rfl⟩
  · exact ⟨h, rfl⟩

theorem silent_cancelCall (h : s.closed = true) (hs : s.cancelCall c = some s') :
    Silent s s' := by
  unfold State.cancelCall at hs
  cases hp : s.point c with
  | absent => simp [hp] at hs
  | left o => simp [hp] at hs
  | responding id i =>
    simp only [hp, Option.some.injEq] at hs
    have hcancelled := silent_cancelFuture (c := c) h
    exact hs ▸ ⟨hcancelled.closed, hcancelled.written⟩
  | _ =>
    simp only [hp, Option.some.injEq] at hs
    exact hs ▸ ⟨h, rfl⟩

theorem silent_dispatchStdoutLine (h : s.closed = true) (bytes : List Byte) :
    Silent s (s.dispatchStdoutLine bytes) := by
  unfold State.dispatchStdoutLine
  split
  · exact ⟨h, rfl⟩
  · split
    · exact ⟨h, rfl⟩
    · split
      · exact ⟨h, rfl⟩
      · exact ⟨h, rfl⟩

theorem silent_step {raises : List Byte → Bool} {e : Event} (h : s.closed = true)
    (hs : step raises s e = some s') : Silent s s' := by
  cases e with
  | begin c kind w =>
    simp only [step] at hs
    split at hs
    · rw [← Option.some.inj hs]
      unfold State.beginCall
      have hstart := silent_start (s := s.setCall c ⟨kind, .absent, false⟩) (c := c) (w := w) h
      have hclose := silent_close (s := s.setCall c ⟨kind, .absent, false⟩) (c := c) h
      cases kind with
      | close => exact ⟨hclose.closed, hclose.written⟩
      | _ => exact ⟨hstart.closed, hstart.written⟩
    · cases hs
  | enter c w =>
    simp only [step, State.enter] at hs
    split at hs
    · rw [Option.ite_none_right_eq_some] at hs
      have hstart := silent_underStartLock (c := c) (w := w)
        (s := s.setStartLock (s.startLock.dequeue c)) h
      exact Option.some.inj hs.2 ▸ ⟨hstart.closed, hstart.written⟩
    · rw [Option.ite_none_right_eq_some] at hs
      have hwrite := silent_underWriteLock (c := c) (w := w)
        (s := s.setWriteLock (s.writeLock.dequeue c)) h
      exact Option.some.inj hs.2 ▸ ⟨hwrite.closed, hwrite.written⟩
    · rw [Option.ite_none_right_eq_some] at hs
      have hclose := silent_underCloseLock (c := c)
        (s := s.setCloseLock (s.closeLock.dequeue c))
      exact Option.some.inj hs.2 ▸ ⟨hclose.closed, hclose.written⟩
    · cases hs
  | spawned c w =>
    simp only [step] at hs
    split at hs
    · have hstarted := silent_started (c := c) (w := w)
        (s := s.adoptChild.setStartLock s.startLock.release) h
      exact Option.some.inj hs ▸ ⟨hstarted.closed, hstarted.written⟩
    · cases hs
  | spawnFailed c =>
    simp only [step] at hs
    split at hs
    · exact Option.some.inj hs ▸ ⟨h, rfl⟩
    · cases hs
  | drained c =>
    simp only [step, State.drained] at hs
    split at hs
    · rw [← Option.some.inj hs]
      split
      · exact ⟨h, rfl⟩
      · exact ⟨h, rfl⟩
    · cases hs
  | drainFailed c =>
    simp only [step, State.drainFailed, State.failWrite] at hs
    split at hs
    · rw [← Option.some.inj hs]
      split
      · next id _ =>
        have hcancelled := silent_cancelFuture (c := c)
          (s := (s.setWriteLock s.writeLock.release).pop id) h
        exact ⟨hcancelled.closed, hcancelled.written⟩
      · exact ⟨h, rfl⟩
    · cases hs
  | resume c =>
    simp only [step, State.respond] at hs
    split at hs
    · rw [← Option.some.inj hs]
      split
      · exact ⟨h, rfl⟩
      · exact ⟨h, rfl⟩
    · cases hs
  | deadline c =>
    simp only [step] at hs
    split at hs
    · rw [Option.ite_none_right_eq_some] at hs
      have hcancelled := silent_cancelFuture (c := c) h
      exact Option.some.inj hs.2 ▸ ⟨hcancelled.closed, hcancelled.written⟩
    · cases hs
  | cancel c => exact silent_cancelCall h hs
  | interrupted c =>
    simp only [step, State.interrupted] at hs
    split at hs
    · next id _ _ =>
      have hcancelled := silent_cancelFuture (c := c) (s := s.pop id) h
      exact Option.some.inj hs ▸ ⟨hcancelled.closed, hcancelled.written⟩
    · cases hs
  | readerStarts k =>
    obtain ⟨-, -, -, rfl⟩ := reader_eq_some hs
    split
    · exact ⟨h, rfl⟩
    · exact ⟨h, rfl⟩
  | line k bytes =>
    obtain ⟨-, -, -, rfl⟩ := reader_eq_some hs
    split
    · exact ⟨rfl, rfl⟩
    · exact silent_dispatchStdoutLine h bytes
  | eof k =>
    obtain ⟨-, -, -, rfl⟩ := reader_eq_some hs
    exact ⟨rfl, rfl⟩
  | readFailed k =>
    obtain ⟨-, -, -, rfl⟩ := reader_eq_some hs
    exact ⟨rfl, rfl⟩
  | readerStops k =>
    obtain ⟨-, -, -, rfl⟩ := reader_eq_some hs
    exact ⟨h, rfl⟩
  | stderrEnds k =>
    simp only [step] at hs
    split at hs
    · rw [Option.ite_none_right_eq_some] at hs
      exact Option.some.inj hs.2 ▸ ⟨h, rfl⟩
    · cases hs
  | stderrStops k =>
    simp only [step] at hs
    split at hs
    · rw [Option.ite_none_right_eq_some] at hs
      exact Option.some.inj hs.2 ▸ ⟨h, rfl⟩
    · cases hs
  | exits k => exact Option.some.inj hs ▸ ⟨h, rfl⟩
  | shutdownTimeout c =>
    simp only [step] at hs
    split at hs
    · exact Option.some.inj hs ▸ ⟨h, rfl⟩
    · cases hs
  | waited c =>
    simp only [step] at hs
    split at hs
    · rw [Option.ite_none_right_eq_some] at hs
      exact Option.some.inj hs.2 ▸ silent_stopReaderTasks h
    · rw [Option.ite_none_right_eq_some] at hs
      exact Option.some.inj hs.2 ▸ silent_stopReaderTasks h
    · cases hs
  | gathered c =>
    simp only [step] at hs
    split at hs
    · rw [Option.ite_none_right_eq_some] at hs
      exact Option.some.inj hs.2 ▸ ⟨h, rfl⟩
    · cases hs
  | abandon => exact Option.some.inj hs ▸ ⟨rfl, rfl⟩

end Silence

/-! ### Nothing is left behind -/

/-- The call is a request that something else has to let go on. -/
def State.Waits (s : State) (c : CallId) : Prop :=
  (s.kind c).isRequest = true ∧
    match s.point c with
    | .startLock => s.startLock.holder ≠ none
    | .spawning => True
    | .writeLock => True
    | .draining _ => True
    | .responding _ none => (s.futures c).isWaiting = true
    | _ => False

def Point.isSuspended : Point → Bool
  | .writeLock => true
  | .draining _ => true
  | .responding _ _ => true
  | _ => false

/-- What a run leaves behind: nothing, once a close has returned. -/
structure LeavesNothing (trace : List Transition) (s : State) : Prop where
  one : s.children.length ≤ 1
  silent : ∀ t ∈ trace, t.before.closed = true → Silent t.before t.after
  ended : ∀ c, s.kind c = .close → s.point c = .left .returned →
    s.process = none ∧ (∀ child ∈ s.children, child.Gone) ∧ ∀ c', ¬s.Waits c'
  armed : ∀ c, (s.kind c).isRequest = true → (s.point c).isSuspended = true →
    (s.calls c).armed = true

section Runs

variable {raises : List Byte → Bool} {trace : List Transition} {s : State} {owner : ℕ → CallId}

theorem inOrder_initial : initial.InOrder := by
  refine ⟨fun _ => 0, ⟨⟨nofun, fun _ _ => rfl, nofun, fun _ => ⟨rfl, rfl⟩, Nat.zero_le 1, nofun,
    nofun, nofun⟩, fun c => trivial⟩⟩

theorem Run.inOrder (h : Run raises trace s) (hcalm : ∀ t ∈ trace, Calm t.before t.event) :
    s.InOrder := by
  induction h with
  | init => exact inOrder_initial
  | next h hstep ih =>
    rw [List.forall_mem_append, List.forall_mem_singleton] at hcalm
    obtain ⟨owner, htidy⟩ := ih hcalm.1
    exact inOrder_step htidy hcalm.2 hstep

theorem Run.silent (h : Run raises trace s) :
    ∀ t ∈ trace, t.before.closed = true → Silent t.before t.after := by
  induction h with
  | init => exact fun t ht => absurd ht List.not_mem_nil
  | next h hstep ih =>
    rw [List.forall_mem_append, List.forall_mem_singleton]
    exact ⟨ih, fun hclosed => silent_step hclosed hstep⟩

theorem Tidy.not_waits (h : Tidy owner s) (hclosed : s.closed = true) (c : CallId) :
    ¬s.Waits c := by
  rintro ⟨hrequest, hwaits⟩
  cases hp : s.point c with
  | startLock =>
    rw [hp] at hwaits
    exact hwaits ((h.at hp).2 hrequest hclosed)
  | spawning =>
    have hopen : s.closed = false := (h.at hp).2.2 hrequest
    rw [hclosed] at hopen
    cases hopen
  | writeLock => exact absurd ((h.at hp).symm.trans (not_notify hrequest)) Bool.noConfusion
  | draining id => exact absurd ((h.at hp).1.symm.trans (not_notify hrequest)) Bool.noConfusion
  | responding id i =>
    cases i with
    | some interrupt => rw [hp] at hwaits; exact hwaits
    | none =>
      rw [hp] at hwaits
      have hmem := (h.at hp).2.2.2.2 hwaits
      rw [h.life.emptied hclosed] at hmem
      cases hmem
  | _ => rw [hp] at hwaits; exact hwaits

theorem Tidy.armed (h : Tidy owner s) {c : CallId} (hrequest : (s.kind c).isRequest = true)
    (hsuspended : (s.point c).isSuspended = true) : (s.calls c).armed = true := by
  cases hp : s.point c with
  | writeLock => exact absurd ((h.at hp).symm.trans (not_notify hrequest)) Bool.noConfusion
  | draining id => exact absurd ((h.at hp).1.symm.trans (not_notify hrequest)) Bool.noConfusion
  | responding id i => exact (h.at hp).2.1
  | _ => rw [hp] at hsuspended; cases hsuspended

/-- **Shutdown leaves nothing behind.** In every run in which no close overtakes a start and no
request has to wait to write its line, one child is started at most, a closed transport writes
nothing, what a close leaves behind when it returns is over, and every suspended request has its
deadline. -/
theorem shutdown_leaves_nothing (h : Run raises trace s)
    (hcalm : ∀ t ∈ trace, Calm t.before t.event) : LeavesNothing trace s := by
  obtain ⟨owner, htidy⟩ := h.inOrder hcalm
  refine ⟨htidy.life.one, h.silent, fun c hkind hp => ?_, fun c => htidy.armed⟩
  obtain ⟨hclosed, hprocess⟩ : s.closed = true ∧ s.process = none :=
    htidy.at hp (congrArg Kind.isClose hkind) rfl
  exact ⟨hprocess, htidy.life.buried hclosed hprocess, htidy.not_waits hclosed⟩

def oneSession : List Event :=
  [.begin 0 (.request []) .sent, .spawned 0 .sent, .readerStarts 0, .begin 1 .close .sent,
    .resume 0, .exits 0, .waited 1, .readerStops 0, .stderrStops 0, .gathered 1]

theorem shutdown_leaves_nothing_oneSession : ∃ trace s, Run (fun _ => false) trace s ∧
    LeavesNothing trace s ∧ s.point 1 = .left .returned := by
  have hrun : transitions (fun _ => false) initial oneSession = some (_, _) := rfl
  refine ⟨_, _, run_transitions .init hrun,
    shutdown_leaves_nothing (run_transitions .init hrun) ?_, rfl⟩
  refine List.forall_mem_cons.mpr ⟨⟨fun _ => .inr (.inl rfl), nofun⟩, ?_⟩
  refine List.forall_mem_cons.mpr ⟨⟨rfl, fun _ => ⟨rfl, nofun⟩⟩, ?_⟩
  refine List.forall_mem_cons.mpr ⟨trivial, ?_⟩
  refine List.forall_mem_cons.mpr ⟨⟨nofun, fun _ _ c hrequest => ?_⟩, ?_⟩
  · -- the only request waits for its response
    match c with
    | 0 => exact ⟨nofun, fun _ => rfl⟩
    | c + 1 => cases hrequest
  · refine List.forall_mem_cons.mpr ⟨trivial, ?_⟩
    refine List.forall_mem_cons.mpr ⟨trivial, ?_⟩
    refine List.forall_mem_cons.mpr ⟨trivial, ?_⟩
    refine List.forall_mem_cons.mpr ⟨trivial, ?_⟩
    refine List.forall_mem_cons.mpr ⟨trivial, ?_⟩
    exact List.forall_mem_cons.mpr ⟨trivial, fun t ht => absurd ht List.not_mem_nil⟩

def overtaken : List Event := [.begin 0 .start .sent, .begin 1 .close .sent, .spawned 0 .sent]

/-- The close has returned, and the child it did not wait for lives and is owned. -/
theorem close_overtakes_start : ¬∀ (raises : List Byte → Bool) (trace : List Transition)
    (s : State), Run raises trace s → LeavesNothing trace s := by
  intro h
  have hrun : transitions (fun _ => false) initial overtaken = some (_, _) := rfl
  have hended := (h _ _ _ (run_transitions .init hrun)).ended 1 rfl rfl
  cases hended.1

end Runs

end VidbyteSdk.Tools.Mcp
