import VidbyteSdk.Tools.Mcp.Transport

/-!
# The demultiplexer

What the transport is for: a table of waiting requests by id, and the futures that their responses
settle. The transport's steps are these operations, and each keeps the invariant that ties the table
to the responses that were heard for each request.
-/

namespace VidbyteSdk.Tools.Mcp

open Lib

inductive Stage
  | idle
  | registered (id : ℕ)
  | left (outcome : Outcome)

def Point.stage : Point → Stage
  | .draining (some id) => .registered id
  | .responding id _ => .registered id
  | .left o => .left o
  | _ => .idle

/-- Whether a message for the id `n` is for the request. -/
def Stage.hears (n : ℤ) : Stage → Bool
  | .idle => false
  | .registered id => decide ((id : ℤ) = n)
  | .left _ => false

structure Demux where
  nextId : ℕ
  pending : List (ℕ × CallId)
  futures : CallId → Future
  stage : CallId → Stage
  /-- The ids on the lines that were written. -/
  sent : List ℕ

def State.demux (s : State) : Demux where
  nextId := s.nextId
  pending := s.pending
  futures := s.futures
  stage c := (s.point c).stage
  sent := s.written.filterMap Line.id

def Outcome.isAnswer : Outcome → Bool
  | .result _ => true
  | .raised (.server _) => true
  | .raised .badResult => true
  | _ => false

namespace Demux

variable (d : Demux)

def moveTo (c : CallId) (stage : Stage) : Demux :=
  { d with stage := Function.update d.stage c stage }

def setFuture (c : CallId) (f : Future) : Demux :=
  { d with futures := Function.update d.futures c f }

def cancelFuture (c : CallId) : Demux :=
  if (d.futures c).isWaiting then d.setFuture c .cancelled else d

def pop (id : ℕ) : Demux := { d with pending := d.pending.filter fun p => p.1 ≠ id }

def register (c : CallId) : Demux :=
  { d with nextId := d.nextId + 1, pending := d.pending ++ [(d.nextId, c)] }

def send (id : ℕ) : Demux := { d with sent := d.sent ++ [id] }

def failAll (reason : EndReason) : Demux :=
  { d with
    pending := []
    futures := fun c =>
      if c ∈ d.pending.map Prod.snd ∧ (d.futures c).isWaiting then
        .done (.raised (.ended reason))
      else d.futures c }

def clear : Demux := { d with pending := [] }

/-- A message for the id `n`. -/
def receive (n : ℤ) (message : Members) : Demux :=
  match d.pending.find? fun p => (p.1 : ℤ) = n with
  | none => d
  | some (id, c) =>
    if (d.futures c).isWaiting then (d.pop id).setFuture c (.done (answered message)) else d.pop id

abbrev Heard := CallId → List Members

def AnswersFirst (heard : List Members) (o : Outcome) : Prop :=
  o.isAnswer = true → ∃ m, heard.head? = some m ∧ o = answered m

/-- The table holds the requests that are waiting, and nothing was heard for those whose future is
open. -/
structure Sound (d : Demux) (heard : Heard) : Prop where
  keys : (d.pending.map Prod.fst).Nodup
  fresh : ∀ c id, d.stage c = .registered id → id < d.nextId
  distinct : ∀ c c' id, d.stage c = .registered id → d.stage c' = .registered id → c = c'
  owned : ∀ id c, (id, c) ∈ d.pending → d.stage c = .registered id
  unheard : ∀ id c, (id, c) ∈ d.pending → (d.futures c).isWaiting = true → heard c = []
  settled : ∀ c o, d.futures c = .done o → AnswersFirst (heard c) o
  left : ∀ c o, d.stage c = .left o → AnswersFirst (heard c) o
  idle : ∀ c, d.stage c = .idle → heard c = [] ∧ d.futures c = .waiting
  sentOnce : d.sent.Nodup
  sentBefore : ∀ id ∈ d.sent, id < d.nextId

variable {d} {heard : Heard}

variable {o : Outcome}

theorem AnswersFirst.of_not {ms : List Members} (h : o.isAnswer = false) :
    AnswersFirst ms o := fun h' => by rw [h] at h'; cases h'

theorem AnswersFirst.append {ms ms' : List Members} (h : AnswersFirst ms o) :
    AnswersFirst (ms ++ ms') o := by
  intro ho
  obtain ⟨m, hm, rfl⟩ := h ho
  exact ⟨m, by rw [List.head?_append, hm]; rfl, rfl⟩

variable {id : ℕ}

theorem mem_pop {p : ℕ × CallId} : p ∈ (d.pop id).pending ↔ p ∈ d.pending ∧ p.1 ≠ id := by
  simp [pop]

variable {c : CallId}

theorem Sound.notMem_of_idle (h : Sound d heard) (hc : d.stage c = .idle) (id : ℕ) :
    (id, c) ∉ d.pending := by
  intro hmem
  rw [h.owned id c hmem] at hc
  cases hc

theorem Sound.notMem_of_left (h : Sound d heard)
    (hc : d.stage c = .left o) (id : ℕ) : (id, c) ∉ d.pending := by
  intro hmem
  rw [h.owned id c hmem] at hc
  cases hc

theorem Sound.id_lt (h : Sound d heard) (hid : id ∈ d.pending.map Prod.fst) :
    id < d.nextId := by
  obtain ⟨⟨id, c⟩, hmem, rfl⟩ := List.mem_map.mp hid
  exact h.fresh c id (h.owned id c hmem)

/-! ### Lookups after an update -/

@[simp] theorem stage_moveTo_self (c : CallId) (stage : Stage) :
    (d.moveTo c stage).stage c = stage := Function.update_self ..

theorem stage_moveTo_of_ne {c c' : CallId} (h : c' ≠ c) (stage : Stage) :
    (d.moveTo c stage).stage c' = d.stage c' := Function.update_of_ne h ..

theorem stage_of_moveTo {c c' : CallId} {stage stage' : Stage}
    (h : (d.moveTo c stage).stage c' = stage') (hne : stage' ≠ stage) : d.stage c' = stage' := by
  by_cases hcc : c' = c
  · subst hcc
    rw [stage_moveTo_self] at h
    exact absurd h.symm hne
  · rwa [stage_moveTo_of_ne hcc] at h

@[simp] theorem futures_setFuture_self (c : CallId) (f : Future) :
    (d.setFuture c f).futures c = f := Function.update_self ..

theorem futures_setFuture_of_ne {c c' : CallId} (h : c' ≠ c) (f : Future) :
    (d.setFuture c f).futures c' = d.futures c' := Function.update_of_ne h ..

@[simp] theorem moveTo_moveTo (c : CallId) (stage stage' : Stage) :
    (d.moveTo c stage).moveTo c stage' = d.moveTo c stage' := by
  simp [moveTo]

theorem moveTo_of_eq {stage : Stage} (h : d.stage c = stage) :
    d.moveTo c stage = d := by
  rw [moveTo, ← h, Function.update_eq_self]

theorem pop_moveTo (c : CallId) (stage : Stage) (id : ℕ) :
    (d.moveTo c stage).pop id = (d.pop id).moveTo c stage := rfl

theorem cancelFuture_moveTo (c c' : CallId) (stage : Stage) :
    (d.moveTo c stage).cancelFuture c' = (d.cancelFuture c').moveTo c stage := by
  unfold cancelFuture
  rw [apply_ite fun d : Demux => d.moveTo c stage]
  rfl

/-! ### What each operation keeps -/

theorem Sound.leave (h : Sound d heard)
    (hno : ∀ id, (id, c) ∉ d.pending) (ho : AnswersFirst (heard c) o) :
    Sound (d.moveTo c (.left o)) heard where
  keys := h.keys
  fresh c' id hst := h.fresh c' id (stage_of_moveTo hst nofun)
  distinct c' c'' id hst hst' :=
    h.distinct c' c'' id (stage_of_moveTo hst nofun) (stage_of_moveTo hst' nofun)
  owned id c' hmem := by
    have hne : c' ≠ c := by
      rintro rfl
      exact hno id hmem
    exact (stage_moveTo_of_ne hne _).trans (h.owned id c' hmem)
  unheard := h.unheard
  settled := h.settled
  left c' o' hst := by
    by_cases hcc : c' = c
    · subst hcc
      rw [stage_moveTo_self] at hst
      cases hst
      exact ho
    · rw [stage_moveTo_of_ne hcc] at hst
      exact h.left c' o' hst
  idle c' hst := h.idle c' (stage_of_moveTo hst nofun)
  sentOnce := h.sentOnce
  sentBefore := h.sentBefore

theorem Sound.pop (h : Sound d heard) (id : ℕ) : Sound (d.pop id) heard where
  keys := h.keys.sublist (List.filter_sublist.map _)
  fresh := h.fresh
  distinct := h.distinct
  owned id' c hmem := h.owned id' c (mem_pop.mp hmem).1
  unheard id' c hmem := h.unheard id' c (mem_pop.mp hmem).1
  settled := h.settled
  left := h.left
  idle := h.idle
  sentOnce := h.sentOnce
  sentBefore := h.sentBefore

theorem Sound.notMem_pop (h : Sound d heard)
    (hc : d.stage c = .registered id) (id' : ℕ) : (id', c) ∉ (d.pop id).pending := by
  intro hmem
  obtain ⟨hmem, hne⟩ := mem_pop.mp hmem
  have hown := h.owned id' c hmem
  rw [hc] at hown
  cases hown
  exact hne rfl

theorem Sound.setFuture (h : Sound d heard) {f : Future} (hc : d.stage c ≠ .idle)
    (hf : f.isWaiting = false) (hdone : ∀ o, f = .done o → AnswersFirst (heard c) o) :
    Sound (d.setFuture c f) heard where
  keys := h.keys
  fresh := h.fresh
  distinct := h.distinct
  owned := h.owned
  unheard id c' hmem hwaiting := by
    by_cases hcc : c' = c
    · subst hcc
      rw [futures_setFuture_self, hf] at hwaiting
      cases hwaiting
    · rw [futures_setFuture_of_ne hcc] at hwaiting
      exact h.unheard id c' hmem hwaiting
  settled c' o hst := by
    by_cases hcc : c' = c
    · subst hcc
      rw [futures_setFuture_self] at hst
      exact hdone o hst
    · rw [futures_setFuture_of_ne hcc] at hst
      exact h.settled c' o hst
  left := h.left
  idle c' hst := by
    have hne : c' ≠ c := by
      rintro rfl
      exact hc hst
    exact ⟨(h.idle c' hst).1, (futures_setFuture_of_ne hne _).trans (h.idle c' hst).2⟩
  sentOnce := h.sentOnce
  sentBefore := h.sentBefore

theorem Sound.cancelFuture (h : Sound d heard) (hc : d.stage c ≠ .idle) :
    Sound (d.cancelFuture c) heard := by
  unfold Demux.cancelFuture
  split
  · exact h.setFuture hc rfl nofun
  · exact h

theorem Sound.register (h : Sound d heard) (hc : d.stage c = .idle) :
    Sound ((d.register c).moveTo c (.registered d.nextId)) heard where
  keys := by
    have hfresh : d.nextId ∉ d.pending.map Prod.fst := fun hmem => lt_irrefl _ (h.id_lt hmem)
    simp only [moveTo, Demux.register, List.map_append, List.map_cons, List.map_nil]
    exact List.nodup_append.mpr ⟨h.keys, List.nodup_singleton _, fun a ha b hb => by
      rw [List.mem_singleton.mp hb]
      rintro rfl
      exact hfresh ha⟩
  fresh c' id hst := by
    by_cases hcc : c' = c
    · subst hcc
      rw [stage_moveTo_self] at hst
      cases hst
      exact Nat.lt_succ_self _
    · rw [stage_moveTo_of_ne hcc] at hst
      exact (h.fresh c' id hst).trans (Nat.lt_succ_self _)
  distinct c' c'' id hst hst' := by
    by_cases hcc : c' = c
    · by_cases hcc' : c'' = c
      · rw [hcc, hcc']
      · rw [hcc, stage_moveTo_self] at hst
        rw [stage_moveTo_of_ne hcc'] at hst'
        cases hst
        exact absurd (h.fresh c'' _ hst') (lt_irrefl _)
    · rw [stage_moveTo_of_ne hcc] at hst
      by_cases hcc' : c'' = c
      · rw [hcc', stage_moveTo_self] at hst'
        cases hst'
        exact absurd (h.fresh c' _ hst) (lt_irrefl _)
      · rw [stage_moveTo_of_ne hcc'] at hst'
        exact h.distinct c' c'' id hst hst'
  owned id c' hmem := by
    rcases List.mem_append.mp hmem with hmem | hmem
    · have hne : c' ≠ c := fun hcc => h.notMem_of_idle hc id (hcc ▸ hmem)
      exact (stage_moveTo_of_ne hne _).trans (h.owned id c' hmem)
    · cases List.mem_singleton.mp hmem
      exact stage_moveTo_self _ _
  unheard id c' hmem hwaiting := by
    rcases List.mem_append.mp hmem with hmem | hmem
    · exact h.unheard id c' hmem hwaiting
    · cases List.mem_singleton.mp hmem
      exact (h.idle c hc).1
  settled := h.settled
  left c' _ hst := h.left c' _ (stage_of_moveTo hst nofun)
  idle c' hst := h.idle c' (stage_of_moveTo hst nofun)
  sentOnce := h.sentOnce
  sentBefore id hid := (h.sentBefore id hid).trans (Nat.lt_succ_self _)

theorem Sound.send (h : Sound d heard) (hlt : id < d.nextId) (hnew : id ∉ d.sent) :
    Sound (d.send id) heard where
  keys := h.keys
  fresh := h.fresh
  distinct := h.distinct
  owned := h.owned
  unheard := h.unheard
  settled := h.settled
  left := h.left
  idle := h.idle
  sentOnce := by
    refine List.nodup_append.mpr ⟨h.sentOnce, List.nodup_singleton _, fun a ha b hb => ?_⟩
    rw [List.mem_singleton.mp hb]
    rintro rfl
    exact hnew ha
  sentBefore id' hid := by
    rcases List.mem_append.mp hid with hid | hid
    · exact h.sentBefore id' hid
    · rw [List.mem_singleton.mp hid]
      exact hlt

theorem Sound.failAll (h : Sound d heard) (reason : EndReason) :
    Sound (d.failAll reason) heard where
  keys := List.nodup_nil
  fresh := h.fresh
  distinct := h.distinct
  owned := nofun
  unheard := nofun
  settled c o hst := by
    simp only [Demux.failAll] at hst
    split at hst
    · cases hst
      exact AnswersFirst.of_not rfl
    · exact h.settled c o hst
  left := h.left
  idle c hst := by
    refine ⟨(h.idle c hst).1, ?_⟩
    have hno : c ∉ d.pending.map Prod.snd := by
      intro hmem
      obtain ⟨⟨id, c'⟩, hentry, rfl⟩ := List.mem_map.mp hmem
      exact h.notMem_of_idle hst id hentry
    simp only [Demux.failAll, hno, false_and, if_false]
    exact (h.idle c hst).2
  sentOnce := h.sentOnce
  sentBefore := h.sentBefore

theorem Sound.clear (h : Sound d heard) : Sound d.clear heard where
  keys := List.nodup_nil
  fresh := h.fresh
  distinct := h.distinct
  owned := nofun
  unheard := nofun
  settled := h.settled
  left := h.left
  idle := h.idle
  sentOnce := h.sentOnce
  sentBefore := h.sentBefore

theorem Sound.listen (h : Sound d heard) {more : Heard}
    (hopen : ∀ id c, (id, c) ∈ d.pending → (d.futures c).isWaiting = true → more c = [])
    (hidle : ∀ c, d.stage c = .idle → more c = []) :
    Sound d fun c => heard c ++ more c where
  keys := h.keys
  fresh := h.fresh
  distinct := h.distinct
  owned := h.owned
  unheard id c hmem hwaiting := by
    rw [h.unheard id c hmem hwaiting, hopen id c hmem hwaiting]
    rfl
  settled c o hst := (h.settled c o hst).append
  left c _ hst := (h.left c _ hst).append
  idle c hst := by
    rw [(h.idle c hst).1, hidle c hst]
    exact ⟨rfl, (h.idle c hst).2⟩
  sentOnce := h.sentOnce
  sentBefore := h.sentBefore

/-- A message for the id `n`, heard by the request that is registered under it if the message is a
response. One that is none must meet no open request. -/
theorem Sound.receive (h : Sound d heard) (n : ℤ) (message : Members) (isResponse : Bool)
    (hclean : ∀ id c, (id, c) ∈ d.pending → (id : ℤ) = n → (d.futures c).isWaiting = true →
      isResponse = true) :
    Sound (d.receive n message) fun c =>
      heard c ++ if isResponse && (d.stage c).hears n then [message] else [] := by
  have hquiet : ∀ id c, (id, c) ∈ d.pending → (id : ℤ) ≠ n →
      (if isResponse && (d.stage c).hears n then [message] else []) = [] := by
    intro id c hmem hne
    rw [h.owned id c hmem, Stage.hears, decide_eq_false hne, Bool.and_false]
    rfl
  have hidle : ∀ c, d.stage c = .idle →
      (if isResponse && (d.stage c).hears n then [message] else []) = [] := by
    intro c hc
    rw [hc, Stage.hears, Bool.and_false]
    rfl
  unfold Demux.receive
  cases hfind : d.pending.find? fun p => (p.1 : ℤ) = n with
  | none =>
    refine h.listen (fun id c hmem _ => hquiet id c hmem ?_) hidle
    simpa using List.find?_eq_none.mp hfind (id, c) hmem
  | some entry =>
    obtain ⟨id, c⟩ := entry
    have hid : (id : ℤ) = n := by simpa using List.find?_some hfind
    have hmem : (id, c) ∈ d.pending := List.mem_of_find?_eq_some hfind
    have hstage := h.owned id c hmem
    have hpopped : Sound (d.pop id) fun c =>
        heard c ++ if isResponse && (d.stage c).hears n then [message] else [] := by
      refine (h.pop id).listen (fun id' c' hmem' _ => ?_) hidle
      obtain ⟨hmem', hne⟩ := mem_pop.mp hmem'
      exact hquiet id' c' hmem' fun h => hne (by omega)
    cases hwaiting : (d.futures c).isWaiting with
    | false =>
      simp only [hwaiting, Bool.false_eq_true, if_false]
      exact hpopped
    | true =>
      simp only [hwaiting, if_true]
      refine hpopped.setFuture (by rw [show (d.pop id).stage c = _ from hstage]; nofun) rfl ?_
      intro o ho _
      cases ho
      refine ⟨message, ?_, rfl⟩
      rw [h.unheard id c hmem hwaiting, hclean id c hmem hid hwaiting, hstage, Stage.hears,
        decide_eq_true hid]
      rfl

/-! ### What no operation takes back -/

/-- A future that is settled stays as it is, a task that has left stays so, and an id that is taken
is a new one. -/
structure Keeps (d d' : Demux) : Prop where
  futures : ∀ c, (d.futures c).isWaiting = false → d'.futures c = d.futures c
  left : ∀ c o, d.stage c = .left o → d'.stage c = .left o
  nextId : d.nextId ≤ d'.nextId
  taken : ∀ c id, d'.stage c = .registered id → d.stage c = .registered id ∨ d.nextId ≤ id

theorem Keeps.refl (d : Demux) : Keeps d d :=
  ⟨fun _ _ => rfl, fun _ _ h => h, le_rfl, fun _ _ h => .inl h⟩

theorem Keeps.trans {d₁ d₂ d₃ : Demux} (h : Keeps d₁ d₂) (h' : Keeps d₂ d₃) : Keeps d₁ d₃ where
  futures c hc := by
    have hsame := h.futures c hc
    rw [← hsame] at hc
    rw [h'.futures c hc, hsame]
  left c o hc := h'.left c o (h.left c o hc)
  nextId := h.nextId.trans h'.nextId
  taken c id hc := by
    rcases h'.taken c id hc with hc | hle
    · exact h.taken c id hc
    · exact .inr (h.nextId.trans hle)

theorem keeps_of_eq {d' : Demux} (hfutures : d'.futures = d.futures) (hstage : d'.stage = d.stage)
    (hnext : d.nextId ≤ d'.nextId) : Keeps d d' :=
  ⟨fun c _ => congrFun hfutures c, fun c _ h => (congrFun hstage c).trans h, hnext,
    fun c _ h => .inl ((congrFun hstage c).symm.trans h)⟩

theorem keeps_leave (hc : ∀ o, d.stage c ≠ .left o) (o : Outcome) :
    Keeps d (d.moveTo c (.left o)) where
  futures _ _ := rfl
  left c' o hst := by
    have hne : c' ≠ c := fun hcc => hc o (hcc ▸ hst)
    exact (stage_moveTo_of_ne hne _).trans hst
  nextId := le_rfl
  taken c' _ hst := .inl (stage_of_moveTo hst nofun)

theorem keeps_register (hc : d.stage c = .idle) :
    Keeps d ((d.register c).moveTo c (.registered d.nextId)) where
  futures _ _ := rfl
  left c' o hst := by
    have hne : c' ≠ c := by
      rintro rfl
      rw [hc] at hst
      cases hst
    exact (stage_moveTo_of_ne hne _).trans hst
  nextId := Nat.le_succ _
  taken c' id hst := by
    by_cases hcc : c' = c
    · subst hcc
      rw [stage_moveTo_self] at hst
      cases hst
      exact .inr le_rfl
    · rw [stage_moveTo_of_ne hcc] at hst
      exact .inl hst

theorem keeps_setFuture (hc : (d.futures c).isWaiting = true) (f : Future) :
    Keeps d (d.setFuture c f) where
  futures c' hc' := by
    refine futures_setFuture_of_ne (fun hcc => ?_) f
    rw [hcc, hc] at hc'
    cases hc'
  left _ _ h := h
  nextId := le_rfl
  taken _ _ h := .inl h

theorem keeps_cancelFuture (c : CallId) : Keeps d (d.cancelFuture c) := by
  unfold cancelFuture
  split
  · next h => exact keeps_setFuture h _
  · exact Keeps.refl d

theorem keeps_failAll (reason : EndReason) : Keeps d (d.failAll reason) where
  futures c hc := by simp [failAll, hc]
  left _ _ h := h
  nextId := le_rfl
  taken _ _ h := .inl h

theorem keeps_receive (n : ℤ) (message : Members) : Keeps d (d.receive n message) := by
  unfold receive
  split
  · exact Keeps.refl d
  · next id c _ =>
    have hpop : Keeps d (d.pop id) := keeps_of_eq rfl rfl le_rfl
    split
    · next h =>
      have hopen : ((d.pop id).futures c).isWaiting = true := h
      exact hpop.trans (keeps_setFuture hopen _)
    · exact hpop

/-- A sound table that some operations lead to. -/
structure Reached (start d : Demux) (heard : Heard) : Prop extends Sound d heard where
  keeps : Keeps start d

section Reached

variable {start : Demux}

theorem Reached.refl (h : Sound d heard) : Reached d d heard := ⟨h, Keeps.refl d⟩

theorem Reached.leave (h : Reached start d heard)
    (hc : ∀ o, d.stage c ≠ .left o) (hno : ∀ id, (id, c) ∉ d.pending)
    (ho : AnswersFirst (heard c) o) : Reached start (d.moveTo c (.left o)) heard :=
  ⟨h.toSound.leave hno ho, h.keeps.trans (keeps_leave hc o)⟩

theorem Reached.leaveIdle (h : Reached start d heard)
    (hc : d.stage c = .idle) (ho : o.isAnswer = false) :
    Reached start (d.moveTo c (.left o)) heard :=
  h.leave (by rw [hc]; nofun) (h.toSound.notMem_of_idle hc) (AnswersFirst.of_not ho)

theorem Reached.pop (h : Reached start d heard) (id : ℕ) : Reached start (d.pop id) heard :=
  ⟨h.toSound.pop id, h.keeps.trans (keeps_of_eq rfl rfl le_rfl)⟩

theorem Reached.cancelFuture (h : Reached start d heard) (hc : d.stage c ≠ .idle) :
    Reached start (d.cancelFuture c) heard :=
  ⟨h.toSound.cancelFuture hc, h.keeps.trans (keeps_cancelFuture c)⟩

theorem Reached.register (h : Reached start d heard) (hc : d.stage c = .idle) :
    Reached start ((d.register c).moveTo c (.registered d.nextId)) heard :=
  ⟨h.toSound.register hc, h.keeps.trans (keeps_register hc)⟩

theorem Reached.send (h : Reached start d heard) (hlt : id < d.nextId)
    (hnew : id ∉ d.sent) : Reached start (d.send id) heard :=
  ⟨h.toSound.send hlt hnew, h.keeps.trans (keeps_of_eq rfl rfl le_rfl)⟩

theorem Reached.failAll (h : Reached start d heard) (reason : EndReason) :
    Reached start (d.failAll reason) heard :=
  ⟨h.toSound.failAll reason, h.keeps.trans (keeps_failAll reason)⟩

theorem Reached.clear (h : Reached start d heard) : Reached start d.clear heard :=
  ⟨h.toSound.clear, h.keeps.trans (keeps_of_eq rfl rfl le_rfl)⟩

theorem Reached.registerAndSend (h : Reached start d heard) (hc : d.stage c = .idle) :
    Reached start (((d.register c).send d.nextId).moveTo c (.registered d.nextId)) heard :=
  (h.register hc).send (Nat.lt_succ_self _) fun hmem =>
    lt_irrefl _ (h.toSound.sentBefore d.nextId hmem)

theorem Reached.giveUp (h : Reached start d heard)
    (hc : d.stage c = .registered id) (ho : o.isAnswer = false) :
    Reached start (((d.pop id).cancelFuture c).moveTo c (.left o)) heard := by
  have hstage : ((d.pop id).cancelFuture c).stage c = .registered id := by
    unfold Demux.cancelFuture
    split <;> exact hc
  have hpending : ((d.pop id).cancelFuture c).pending = (d.pop id).pending := by
    unfold Demux.cancelFuture
    split <;> rfl
  refine ((h.pop id).cancelFuture (by rw [show (d.pop id).stage c = _ from hc]; nofun)).leave
    (by rw [hstage]; nofun) (fun id' => ?_) (AnswersFirst.of_not ho)
  rw [hpending]
  exact h.toSound.notMem_pop hc id'

end Reached

end Demux

end VidbyteSdk.Tools.Mcp
