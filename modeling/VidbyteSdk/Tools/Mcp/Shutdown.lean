import VidbyteSdk.Tools.Mcp.Transport

/-!
# Shutdown leaves nothing behind

What a run keeps of the child, the readers and the waiting requests, as one condition on the
transport's life and one on each call where it is suspended.
-/

namespace VidbyteSdk.Tools.Mcp

open Lib

/-- The fields that the life of the child and of the requests depends on. -/
structure Life where
  closed : Bool
  process : Option ChildId
  stdoutTask : Option ChildId
  stderrTask : Option ChildId
  holder : Option CallId
  children : List Child
  nextId : ℕ
  pending : List (ℕ × CallId)

def State.life (s : State) : Life where
  closed := s.closed
  process := s.process
  stdoutTask := s.stdoutTask
  stderrTask := s.stderrTask
  holder := s.startLock.holder
  children := s.children
  nextId := s.nextId
  pending := s.pending

def Kind.isClose : Kind → Bool
  | .close => true
  | _ => false

def Kind.isNotify : Kind → Bool
  | .notify _ => true
  | _ => false

def Outcome.isReturned : Outcome → Bool
  | .returned => true
  | _ => false

structure Child.Gone (child : Child) : Prop where
  exited : child.exited = true
  stdout : child.stdout = .finished
  stderr : child.stderr = .finished

/-- What holds of the transport between two steps; `owner` says who got each id. -/
structure Life.Ok (owner : ℕ → CallId) (l : Life) : Prop where
  inFlight : l.holder ≠ none → l.process = none ∧ l.children = []
  fresh : l.closed = false → l.process = none → l.children = []
  owned : ∀ k, l.process = some k →
    k < l.children.length ∧ l.stdoutTask = some k ∧ l.stderrTask = some k
  unowned : l.process = none → l.stdoutTask = none ∧ l.stderrTask = none
  one : l.children.length ≤ 1
  buried : l.closed = true → l.process = none → ∀ child ∈ l.children, child.Gone
  emptied : l.closed = true → l.pending = []
  owners : ∀ p ∈ l.pending, p.1 < l.nextId ∧ owner p.1 = p.2

/-- What holds of the call `c` where it is. -/
def CallOk (owner : ℕ → CallId) (l : Life) (c : CallId) (call : Call) (f : Future) : Prop :=
  match call.point with
  | .absent => True
  | .startLock => call.kind.isClose = false ∧
      (call.kind.isRequest = true → l.closed = true → l.holder = none)
  | .spawning => call.kind.isClose = false ∧ l.holder = some c ∧
      (call.kind.isRequest = true → l.closed = false)
  | .writeLock => call.kind.isNotify = true
  | .draining id => call.kind.isNotify = true ∧ id = none
  | .responding id _ => call.kind.isRequest = true ∧ call.armed = true ∧ owner id = c ∧
      id < l.nextId ∧ (f.isWaiting = true → (id, c) ∈ l.pending)
  | .closeLock => True
  | .terminating k => l.closed = true ∧ k < l.children.length
  | .killing k => l.closed = true ∧ k < l.children.length
  | .stopping stdout stderr => l.closed = true ∧ ∀ k child, l.children[k]? = some child →
      child.exited = true ∧ (stdout = some k ∨ child.stdout = .finished) ∧
        (stderr = some k ∨ child.stderr = .finished)
  | .left o => call.kind.isClose = true → o.isReturned = true →
      l.closed = true ∧ l.process = none

/-- The transport is in order, but for the call `c`, which is being moved. -/
structure TidyBut (owner : ℕ → CallId) (c : CallId) (s : State) : Prop where
  life : s.life.Ok owner
  calls : ∀ c', c' ≠ c → CallOk owner s.life c' (s.calls c') (s.futures c')

structure Tidy (owner : ℕ → CallId) (s : State) : Prop where
  life : s.life.Ok owner
  calls : ∀ c, CallOk owner s.life c (s.calls c) (s.futures c)

section Moves

variable {owner : ℕ → CallId} {s : State} {c : CallId}

variable {reason : EndReason}

theorem State.futures_failAllPending_of_mem (h : c ∈ s.pending.map Prod.snd ∧ (s.futures c).isWaiting = true) :
    (s.failAllPending reason).futures c = .done (.raised (.ended reason)) := if_pos h

theorem State.futures_failAllPending_of_not (h : ¬(c ∈ s.pending.map Prod.snd ∧ (s.futures c).isWaiting = true)) :
    (s.failAllPending reason).futures c = s.futures c := if_neg h

theorem Tidy.but (h : Tidy owner s) (c : CallId) : TidyBut owner c s :=
  ⟨h.life, fun c' _ => h.calls c'⟩

theorem TidyBut.setCall (h : TidyBut owner c s) {call : Call}
    (hcall : CallOk owner s.life c call (s.futures c)) : Tidy owner (s.setCall c call) := by
  refine ⟨h.life, fun c' => ?_⟩
  by_cases hcc : c' = c
  · subst hcc
    rw [State.calls_setCall_self]
    exact hcall
  · rw [State.calls_setCall_of_ne _ hcc]
    exact h.calls c' hcc

theorem TidyBut.setCallBut (h : TidyBut owner c s) (call : Call) :
    TidyBut owner c (s.setCall c call) := by
  refine ⟨h.life, fun c' hcc => ?_⟩
  rw [State.calls_setCall_of_ne _ hcc]
  exact h.calls c' hcc

theorem TidyBut.leave (h : TidyBut owner c s) {o : Outcome} (ho : o.isReturned = false) :
    Tidy owner (s.leave c o) :=
  h.setCall fun _ hreturned => by rw [ho] at hreturned; cases hreturned

theorem TidyBut.leaveOther (h : TidyBut owner c s) (hc : (s.kind c).isClose = false) (o : Outcome) :
    Tidy owner (s.leave c o) :=
  h.setCall fun hclose => by rw [show (s.calls c).kind.isClose = false from hc] at hclose; cases hclose

theorem TidyBut.change (h : TidyBut owner c s) {s' : State} {owner' : ℕ → CallId}
    (hsame : s'.calls = s.calls) (hlife : s'.life.Ok owner')
    (hcalls : ∀ c' kind point armed, c' ≠ c →
      CallOk owner s.life c' ⟨kind, point, armed⟩ (s.futures c') →
      CallOk owner' s'.life c' ⟨kind, point, armed⟩ (s'.futures c')) : TidyBut owner' c s' := by
  refine ⟨hlife, fun c' hcc => ?_⟩
  rw [hsame]
  exact hcalls c' _ _ _ hcc (h.calls c' hcc)

theorem Tidy.change (h : Tidy owner s) {s' : State}
    (hsame : s'.calls = s.calls) (hlife : s'.life.Ok owner)
    (hcalls : ∀ c' kind point armed,
      CallOk owner s.life c' ⟨kind, point, armed⟩ (s.futures c') →
      CallOk owner s'.life c' ⟨kind, point, armed⟩ (s'.futures c')) : Tidy owner s' := by
  refine ⟨hlife, fun c' => ?_⟩
  rw [hsame]
  exact hcalls c' _ _ _ (h.calls c')

/-! ### The table -/

theorem TidyBut.register (h : TidyBut owner c s) (hopen : s.closed = false) :
    TidyBut (Function.update owner s.nextId c) c (s.register c) := by
  have howner : ∀ id, id < s.nextId → Function.update owner s.nextId c id = owner id :=
    fun id hlt => Function.update_of_ne (ne_of_lt hlt) ..
  refine h.change rfl ?_ fun c' kind point armed hcc hcall => ?_
  · refine ⟨h.life.inFlight, h.life.fresh, h.life.owned, h.life.unowned, h.life.one,
      h.life.buried, fun hclosed => ?_, fun p hp => ?_⟩
    · rw [show (s.register c).life.closed = s.closed from rfl, hopen] at hclosed
      cases hclosed
    · rcases List.mem_append.mp hp with hp | hp
      · obtain ⟨hlt, hown⟩ := h.life.owners p hp
        exact ⟨hlt.trans (Nat.lt_succ_self _), (howner p.1 hlt).trans hown⟩
      · rw [List.mem_singleton.mp hp]
        exact ⟨Nat.lt_succ_self _, Function.update_self ..⟩
  · cases point with
    | responding id interrupt =>
      obtain ⟨hkind, harmed, hown, hlt, hmem⟩ := hcall
      exact ⟨hkind, harmed, (howner id hlt).trans hown, hlt.trans (Nat.lt_succ_self _),
        fun hw => List.mem_append_left _ (hmem hw)⟩
    | _ => exact hcall

theorem TidyBut.pop (h : TidyBut owner c s) {id : ℕ} (hid : owner id = c) :
    TidyBut owner c (s.pop id) := by
  refine h.change rfl ?_ fun c' kind point armed hcc hcall => ?_
  · refine ⟨h.life.inFlight, h.life.fresh, h.life.owned, h.life.unowned, h.life.one,
      h.life.buried, fun hclosed => ?_, fun p hp => h.life.owners p (List.mem_filter.mp hp).1⟩
    show s.pending.filter _ = []
    rw [show s.pending = [] from h.life.emptied hclosed]
    rfl
  · cases point with
    | responding id' interrupt =>
      obtain ⟨hkind, harmed, hown, hlt, hmem⟩ := hcall
      refine ⟨hkind, harmed, hown, hlt, fun hw => List.mem_filter.mpr ⟨hmem hw, ?_⟩⟩
      refine decide_eq_true fun heq => hcc ?_
      rw [← hown, ← hid]
      exact congrArg owner heq
    | _ => exact hcall

theorem TidyBut.setFuture (h : TidyBut owner c s) (f : Future) :
    TidyBut owner c (s.setFuture c f) := by
  refine ⟨h.life, fun c' hcc => ?_⟩
  rw [show (s.setFuture c f).futures c' = s.futures c' from Function.update_of_ne hcc ..]
  exact h.calls c' hcc

theorem TidyBut.cancelFuture (h : TidyBut owner c s) : TidyBut owner c (s.cancelFuture c) := by
  unfold State.cancelFuture
  split
  · exact h.setFuture _
  · exact h

theorem isWaiting_cancelFuture : ((s.cancelFuture c).futures c).isWaiting = false := by
  unfold State.cancelFuture
  cases hw : (s.futures c).isWaiting with
  | false => exact hw
  | true =>
    rw [if_pos rfl, State.futures_setFuture_self]
    rfl

theorem isWaiting_failAllPending (h : (s.futures c).isWaiting = true → c ∈ s.pending.map Prod.snd) :
    ((s.failAllPending reason).futures c).isWaiting = false := by
  by_cases hfails : c ∈ s.pending.map Prod.snd ∧ (s.futures c).isWaiting = true
  · rw [State.futures_failAllPending_of_mem hfails]
    rfl
  · rw [State.futures_failAllPending_of_not hfails]
    exact Bool.eq_false_iff.mpr fun hw => hfails ⟨h hw, hw⟩

theorem CallOk.responding_failAllPending {c' : CallId} {kind : Kind} {point : Point} {armed : Bool}
    {l : Life} (hid : l.nextId = s.nextId) {id : ℕ} {i : Option Interrupt}
    (hp : point = .responding id i)
    (h : CallOk owner s.life c' ⟨kind, point, armed⟩ (s.futures c')) :
    CallOk owner l c' ⟨kind, point, armed⟩ ((s.failAllPending reason).futures c') := by
  subst hp
  obtain ⟨hkind, harmed, hown, hlt, hmem⟩ := h
  refine ⟨hkind, harmed, hown, by rw [hid]; exact hlt, fun hw => ?_⟩
  rw [isWaiting_failAllPending fun hw => List.mem_map_of_mem (hmem hw)] at hw
  cases hw

theorem Tidy.failAllPending (h : Tidy owner s) (reason : EndReason) :
    Tidy owner (s.failAllPending reason) := by
  refine h.change rfl ?_ fun c' kind point armed hcall => ?_
  · exact ⟨h.life.inFlight, h.life.fresh, h.life.owned, h.life.unowned, h.life.one,
      h.life.buried, fun _ => rfl, nofun⟩
  · cases point with
    | responding id interrupt => exact hcall.responding_failAllPending rfl rfl
    | _ => exact hcall

theorem TidyBut.rest (h : TidyBut owner c s)
    (hcall : CallOk owner s.life c (s.calls c) (s.futures c)) : Tidy owner s := by
  refine ⟨h.life, fun c' => ?_⟩
  by_cases hcc : c' = c
  · subst hcc
    exact hcall
  · exact h.calls c' hcc

/-! ### The start lock -/

theorem TidyBut.takeStartLock (h : TidyBut owner c s) (hopen : s.closed = false)
    (hprocess : s.process = none) (hholder : s.startLock.holder = none) :
    TidyBut owner c (s.setStartLock (s.startLock.take c)) := by
  refine h.change rfl ?_ fun c' kind point armed hcc hcall => ?_
  · exact ⟨fun _ => ⟨hprocess, h.life.fresh hopen hprocess⟩, h.life.fresh, h.life.owned,
      h.life.unowned, h.life.one, h.life.buried, h.life.emptied, h.life.owners⟩
  · cases point with
    | startLock =>
      refine ⟨hcall.1, fun _ hclosed => ?_⟩
      rw [show s.closed = true from hclosed] at hopen
      cases hopen
    | spawning =>
      have hheld : s.startLock.holder = some c' := hcall.2.1
      rw [hholder] at hheld
      cases hheld
    | _ => exact hcall

theorem TidyBut.releaseStartLock (h : TidyBut owner c s) (hholder : s.startLock.holder = some c) :
    TidyBut owner c (s.setStartLock s.startLock.release) := by
  refine h.change rfl ?_ fun c' kind point armed hcc hcall => ?_
  · exact ⟨fun hheld => absurd rfl hheld, h.life.fresh, h.life.owned, h.life.unowned, h.life.one,
      h.life.buried, h.life.emptied, h.life.owners⟩
  · cases point with
    | startLock => exact ⟨hcall.1, fun _ _ => rfl⟩
    | spawning =>
      have hheld : s.startLock.holder = some c' := hcall.2.1
      rw [hholder] at hheld
      exact absurd (Option.some.inj hheld).symm hcc
    | _ => exact hcall

theorem TidyBut.adoptChild (h : TidyBut owner c s) (hopen : s.closed = false)
    (hholder : s.startLock.holder = some c) :
    TidyBut owner c (s.adoptChild.setStartLock s.startLock.release) := by
  have hheld : s.life.holder ≠ none := by
    rw [show s.life.holder = some c from hholder]
    exact Option.some_ne_none c
  have hnone : s.children = [] := (h.life.inFlight hheld).2
  have hnever : ∀ {p : Prop}, s.closed = true → p := by
    intro p hclosed
    rw [hopen] at hclosed
    cases hclosed
  refine h.change rfl ?_ fun c' kind point armed hcc hcall => ?_
  · refine ⟨fun hheld => absurd rfl hheld, nofun, fun k hk => ?_, nofun, ?_, hnever, hnever,
      h.life.owners⟩
    · rw [← Option.some.inj hk]
      refine ⟨?_, rfl, rfl⟩
      show s.children.length < (s.children ++ [_]).length
      rw [List.length_append]
      exact Nat.lt_succ_self _
    · show (s.children ++ [_]).length ≤ 1
      rw [hnone]
      exact le_rfl
  · cases point with
    | startLock => exact ⟨hcall.1, fun _ _ => rfl⟩
    | spawning =>
      have hheld : s.startLock.holder = some c' := hcall.2.1
      rw [hholder] at hheld
      exact absurd (Option.some.inj hheld).symm hcc
    | terminating k => exact hnever hcall.1
    | killing k => exact hnever hcall.1
    | stopping stdout stderr => exact hnever hcall.1
    | left o => exact fun hclose hreturned => hnever (hcall hclose hreturned).1
    | _ => exact hcall

/-! ### The children -/

/-- What has come to its end for a child stays at its end. -/
structure Child.Ages (child child' : Child) : Prop where
  exited : child.exited = true → child'.exited = true
  stdout : child.stdout = .finished → child'.stdout = .finished
  stderr : child.stderr = .finished → child'.stderr = .finished

theorem Child.Gone.ages {child child' : Child} (h : child.Gone) (hages : child.Ages child') :
    child'.Gone :=
  ⟨hages.exited h.exited, hages.stdout h.stdout, hages.stderr h.stderr⟩

theorem Child.Ages.refl (child : Child) : child.Ages child := ⟨id, id, id⟩

variable {f : Child → Child}

theorem getElem?_setChild {k k' : ChildId} {child' : Child}
    (hf : ∀ child, s.children[k]? = some child → child.Ages (f child))
    (h : (s.setChild k f).children[k']? = some child') :
    ∃ child, s.children[k']? = some child ∧ child.Ages child' := by
  rw [State.setChild, List.getElem?_modify] at h
  obtain ⟨child, hchild, rfl⟩ := Option.map_eq_some_iff.mp h
  refine ⟨child, hchild, ?_⟩
  split
  · next heq => exact hf child (by rw [heq]; exact hchild)
  · exact .refl child

theorem length_setChild (k : ChildId) (f : Child → Child) :
    (s.setChild k f).children.length = s.children.length := List.length_modify ..

variable {k : ChildId}

theorem CallOk.setChild {c' : CallId} {kind : Kind} {point : Point} {armed : Bool}
    {future : Future}
    (hf : ∀ child, s.children[k]? = some child → child.Ages (f child))
    (h : CallOk owner s.life c' ⟨kind, point, armed⟩ future) :
    CallOk owner (s.setChild k f).life c' ⟨kind, point, armed⟩ future := by
  cases point with
  | terminating k' => exact ⟨h.1, (length_setChild (s := s) k f).symm ▸ h.2⟩
  | killing k' => exact ⟨h.1, (length_setChild (s := s) k f).symm ▸ h.2⟩
  | stopping stdout stderr =>
    refine ⟨h.1, fun k' child' hchild' => ?_⟩
    obtain ⟨child, hchild, hages⟩ := getElem?_setChild hf hchild'
    obtain ⟨hexited, hstdout, hstderr⟩ := h.2 k' child hchild
    exact ⟨hages.exited hexited, hstdout.imp_right hages.stdout, hstderr.imp_right hages.stderr⟩
  | _ => exact h

theorem Life.Ok.setChild (h : s.life.Ok owner)
    (hf : ∀ child, s.children[k]? = some child → child.Ages (f child)) :
    (s.setChild k f).life.Ok owner := by
  have hempty : s.children = [] → (s.setChild k f).children = [] := fun hnone =>
    List.eq_nil_of_length_eq_zero (by rw [length_setChild, hnone]; rfl)
  refine ⟨fun hheld => ⟨(h.inFlight hheld).1, hempty (h.inFlight hheld).2⟩,
    fun hopen hprocess => hempty (h.fresh hopen hprocess), fun k' hk' => ?_, h.unowned, ?_,
    fun hclosed hprocess child' hchild' => ?_, h.emptied, h.owners⟩
  · obtain ⟨hlt, htasks⟩ := h.owned k' hk'
    exact ⟨(length_setChild (s := s) k f).symm ▸ hlt, htasks⟩
  · exact (length_setChild (s := s) k f).trans_le h.one
  · obtain ⟨k', hk'⟩ := List.mem_iff_getElem?.mp hchild'
    obtain ⟨child, hchild, hages⟩ := getElem?_setChild hf hk'
    exact (h.buried hclosed hprocess child (List.mem_of_getElem? hchild)).ages hages

theorem TidyBut.setChild (h : TidyBut owner c s)
    (hf : ∀ child, s.children[k]? = some child → child.Ages (f child)) :
    TidyBut owner c (s.setChild k f) :=
  h.change rfl (h.life.setChild hf) fun _ _ _ _ _ hcall => hcall.setChild hf

theorem Tidy.setChild (h : Tidy owner s)
    (hf : ∀ child, s.children[k]? = some child → child.Ages (f child)) :
    Tidy owner (s.setChild k f) :=
  h.change rfl (h.life.setChild hf) fun _ _ _ _ hcall => hcall.setChild hf

/-! ### Closing -/

/-- No request is on its way through `start()`, but one that gets the start lock at once. -/
def State.NoneStarts (s : State) : Prop :=
  ∀ c, (s.kind c).isRequest = true →
    s.point c ≠ .spawning ∧ (s.point c = .startLock → s.startLock.holder = none)

theorem CallOk.shut {c' : CallId} {call : Call}
    (hquiet : call.kind.isRequest = true →
      call.point ≠ .spawning ∧ (call.point = .startLock → s.startLock.holder = none))
    (h : CallOk owner s.life c' call (s.futures c')) :
    CallOk owner ((s.failAllPending reason).setClosed).life c' call
      (((s.failAllPending reason).setClosed).futures c') := by
  obtain ⟨kind, point, armed⟩ := call
  cases point with
  | startLock => exact ⟨h.1, fun hkind _ => (hquiet hkind).2 rfl⟩
  | spawning => exact ⟨h.1, h.2.1, fun hkind => absurd rfl (hquiet hkind).1⟩
  | responding id interrupt => exact h.responding_failAllPending rfl rfl
  | terminating k => exact ⟨rfl, h.2⟩
  | killing k => exact ⟨rfl, h.2⟩
  | stopping stdout stderr => exact ⟨rfl, h.2⟩
  | left o => exact fun hclose hreturned => ⟨rfl, (h hclose hreturned).2⟩
  | _ => exact h

theorem Life.Ok.shut (h : s.life.Ok owner) (reason : EndReason) :
    ((s.failAllPending reason).setClosed).life.Ok owner := by
  refine ⟨h.inFlight, nofun, h.owned, h.unowned, h.one, fun _ hprocess child hchild => ?_,
    fun _ => rfl, nofun⟩
  cases hclosed : s.closed with
  | true => exact h.buried hclosed hprocess child hchild
  | false =>
    have hnone : s.children = [] := h.fresh hclosed hprocess
    rw [show ((s.failAllPending reason).setClosed).life.children = [] from hnone] at hchild
    cases hchild

theorem TidyBut.shut (h : TidyBut owner c s) (hquiet : s.NoneStarts) (reason : EndReason) :
    TidyBut owner c ((s.failAllPending reason).setClosed) :=
  ⟨h.life.shut reason, fun c' hcc => (h.calls c' hcc).shut (hquiet c')⟩

theorem Tidy.shut (h : Tidy owner s) (hquiet : s.NoneStarts) (reason : EndReason) :
    Tidy owner ((s.failAllPending reason).setClosed) :=
  ⟨h.life.shut reason, fun c' => (h.calls c').shut (hquiet c')⟩

/-- The child is gone, and `close()` returns. -/
theorem TidyBut.closeReturns (h : TidyBut owner c s) (hclosed : s.closed = true)
    (hgone : ∀ child ∈ s.children, child.Gone) : Tidy owner (s.closeReturns c) := by
  have hempty : s.pending = [] := h.life.emptied hclosed
  have hdetached : TidyBut owner c (s.detachProcessState.setCloseLock s.closeLock.release) := by
    refine h.change rfl ?_ fun c' kind point armed hcc hcall => ?_
    · exact ⟨fun hheld => ⟨rfl, (h.life.inFlight hheld).2⟩,
        fun hopen => absurd (hclosed.symm.trans hopen) Bool.noConfusion, nofun,
        fun _ => ⟨rfl, rfl⟩, h.life.one, fun _ _ => hgone, fun _ => rfl, nofun⟩
    · cases point with
      | responding id interrupt =>
        obtain ⟨hkind, harmed, hown, hlt, hmem⟩ := hcall
        refine ⟨hkind, harmed, hown, hlt, fun hw => ?_⟩
        have := hmem hw
        rw [show s.life.pending = [] from hempty] at this
        cases this
      | left o => exact fun hclose hreturned => ⟨(hcall hclose hreturned).1, rfl⟩
      | _ => exact hcall
  exact hdetached.setCall fun _ _ => ⟨hclosed, rfl⟩

theorem Child.ages_cancel_stdout (child : Child) :
    child.Ages { child with stdout := child.stdout.cancel } :=
  ⟨id, fun hfinished => by rw [hfinished]; rfl, id⟩

theorem Child.ages_cancel_stderr (child : Child) :
    child.Ages { child with stderr := child.stderr.cancel } :=
  ⟨id, id, fun hfinished => by rw [hfinished]; rfl⟩

theorem TidyBut.cancelReaders (h : TidyBut owner c s) (stdout stderr : Option ChildId) :
    TidyBut owner c (s.cancelReaders stdout stderr) := by
  unfold State.cancelReaders
  have hstdout : TidyBut owner c (s.cancelReaders stdout none) := by
    cases stdout with
    | none => exact h
    | some k => exact h.setChild fun child _ => child.ages_cancel_stdout
  cases stderr with
  | none => exact hstdout
  | some k => exact hstdout.setChild fun child _ => child.ages_cancel_stderr

theorem exited_setChild (hf : ∀ child : Child, child.Ages (f child))
    (h : ∀ child ∈ s.children, child.exited = true) :
    ∀ child ∈ (s.setChild k f).children, child.exited = true := by
  intro child' hchild'
  obtain ⟨k', hk'⟩ := List.mem_iff_getElem?.mp hchild'
  obtain ⟨child, hchild, hages⟩ := getElem?_setChild (fun child _ => hf child) hk'
  exact hages.exited (h child (List.mem_of_getElem? hchild))

theorem exited_cancelReaders (stdout stderr : Option ChildId)
    (h : ∀ child ∈ s.children, child.exited = true) :
    ∀ child ∈ (s.cancelReaders stdout stderr).children, child.exited = true := by
  unfold State.cancelReaders
  cases stdout with
  | none =>
    cases stderr with
    | none => exact h
    | some k => exact exited_setChild Child.ages_cancel_stderr h
  | some k =>
    have hstdout := exited_setChild (k := k) Child.ages_cancel_stdout h
    cases stderr with
    | none => exact hstdout
    | some k' => exact exited_setChild Child.ages_cancel_stderr hstdout

theorem Life.Ok.eq_of_owned {l : Life} (h : l.Ok owner) {k k' : ChildId} (hk : l.process = some k)
    {child : Child} (hk' : l.children[k']? = some child) : k' = k := by
  have hlt := (h.owned k hk).1.trans_le h.one
  have hlt' := (List.getElem?_eq_some_iff.mp hk').1.trans_le h.one
  exact (Nat.lt_one_iff.mp hlt').trans (Nat.lt_one_iff.mp hlt).symm

theorem Life.Ok.exited_of_hasExited (h : s.life.Ok owner)
    (hk : s.process = some k) (hexited : s.hasExited k = true) :
    ∀ child ∈ s.children, child.exited = true := by
  intro child hchild
  obtain ⟨k', hk'⟩ := List.mem_iff_getElem?.mp hchild
  rw [h.eq_of_owned hk hk'] at hk'
  rw [State.hasExited, hk'] at hexited
  exact hexited

theorem TidyBut.stopReaderTasks (h : TidyBut owner c s) (hclosed : s.closed = true)
    (hexited : ∀ child ∈ s.children, child.exited = true) : Tidy owner (s.stopReaderTasks c) := by
  unfold State.stopReaderTasks
  cases hprocess : s.process with
  | none =>
    obtain ⟨hstdout, hstderr⟩ := h.life.unowned hprocess
    rw [show s.stdoutTask = none from hstdout, show s.stderrTask = none from hstderr]
    exact h.closeReturns hclosed (h.life.buried hclosed hprocess)
  | some k =>
    obtain ⟨hlt, hstdout, hstderr⟩ := h.life.owned k hprocess
    rw [show s.stdoutTask = some k from hstdout, show s.stderrTask = some k from hstderr,
      if_neg (by simp)]
    have hcancelled := h.cancelReaders (some k) (some k)
    refine hcancelled.setCall ⟨hclosed, fun k' child hk' => ?_⟩
    obtain rfl := hcancelled.life.eq_of_owned hprocess hk'
    exact ⟨exited_cancelReaders _ _ hexited child (List.mem_of_getElem? hk'), .inl rfl, .inl rfl⟩

theorem TidyBut.underCloseLock (h : TidyBut owner c s) (hquiet : s.NoneStarts) :
    Tidy owner (s.underCloseLock c) := by
  have hshut : TidyBut owner c
      (((s.failAllPending .closed).setClosed).setCloseLock (s.closeLock.take c)) :=
    ⟨(h.shut hquiet .closed).life, (h.shut hquiet .closed).calls⟩
  unfold State.underCloseLock
  simp only
  split
  · next k hk =>
    split
    · next hexited =>
      exact hshut.stopReaderTasks rfl (hshut.life.exited_of_hasExited hk hexited)
    · exact hshut.setCall ⟨rfl, (h.life.owned k hk).1⟩
  · next hprocess =>
    refine hshut.stopReaderTasks rfl fun child hchild => ?_
    exact (hshut.life.buried rfl hprocess child hchild).exited

theorem TidyBut.close (h : TidyBut owner c s)
    (hquiet : s.closeLock.isFree = true → s.NoneStarts) : Tidy owner (s.close c) := by
  unfold State.close
  split
  · next hfree => exact h.underCloseLock (hquiet hfree)
  · have hqueued : TidyBut owner c (s.setCloseLock (s.closeLock.queue c)) := ⟨h.life, h.calls⟩
    exact hqueued.setCall trivial

end Moves

end VidbyteSdk.Tools.Mcp
