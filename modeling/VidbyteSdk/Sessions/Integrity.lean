import VidbyteSdk.Sessions.Intact

/-!
# Store integrity over whole histories

Every verb of every `Session` object keeps the store invariant, at each of its writes and also when it
raises. By induction over the operations of a program the invariant holds at every moment of every run
that starts from an empty store.
-/

namespace VidbyteSdk.Sessions

open VidbyteSdk.Lib Prog

variable {J : Type}

/-! ### The store's operations -/

namespace StoreM

variable {env : Environment} {I : Host J → Prop} {E : SessionException → Host J → Prop} {h : Host J}

@[simp] theorem wp_tick {Q : Nat → Host J → Prop} :
    wp I tick Q E h ↔
      I { h with clock := h.clock + 1 } ∧ Q h.clock { h with clock := h.clock + 1 } := by
  simp [tick]

@[simp] theorem wp_now {Q : String → Host J → Prop} :
    wp I (now env) Q E h ↔
      I { h with clock := h.clock + 1 } ∧ Q (env.now h.clock) { h with clock := h.clock + 1 } := by
  simp [now]

@[simp] theorem wp_uuid4 {Q : String → Host J → Prop} :
    wp I (uuid4 env) Q E h ↔
      I { h with clock := h.clock + 1 } ∧ Q (env.hex h.clock) { h with clock := h.clock + 1 } := by
  simp [uuid4]

theorem wp_write {Q : Unit → Host J → Prop} {change : Store J → Store J}
    (hfail : ∀ fs e, I { h with faults := fs } ∧ E e { h with faults := fs })
    (hok : ∀ fs, I { h with store := change h.store, faults := fs } ∧
      Q () { h with store := change h.store, faults := fs }) :
    wp I (write change) Q E h := by
  unfold write
  rw [wp_bind, wp_get]
  rcases h.faults with _ | ⟨_ | _, faults⟩
  · simpa using hok _
  · simpa using hok _
  · simpa using hfail faults (.store "Failed to write session file.")

theorem wp_writeCheckpoint {Q : Unit → Host J → Prop} {c : Checkpoint J}
    (hfail : ∀ fs e, I { h with faults := fs } ∧ E e { h with faults := fs })
    (hok : ∀ fs, I { h with store := h.store.withCheckpoint c, faults := fs } ∧
      Q () { h with store := h.store.withCheckpoint c, faults := fs }) :
    wp I (writeCheckpoint c) Q E h := by
  unfold writeCheckpoint
  rw [wp_bind, wp_get, wp_ite]
  refine ⟨fun _ => ?_, fun _ => wp_write hfail hok⟩
  rw [wp_throw]
  exact (hfail h.faults _).2

variable {m : SessionMeta}

theorem wp_writeMeta {Q : Unit → Host J → Prop}
    (hfail : ∀ fs e, I { h with faults := fs } ∧ E e { h with faults := fs })
    (hok : ∀ fs, I { h with store := h.store.withMeta m, faults := fs } ∧
      Q () { h with store := h.store.withMeta m, faults := fs }) :
    wp I (writeMeta m) Q E h := by
  unfold writeMeta
  rw [wp_bind, wp_get, wp_ite]
  refine ⟨fun _ => ?_, fun _ => wp_write hfail hok⟩
  rw [wp_throw]
  exact (hfail h.faults _).2

@[simp] theorem wp_get_checkpoint {Q : Checkpoint J → Host J → Prop} {id : String} :
    wp I (get id) Q E h ↔
      (∀ c, h.store.readCheckpoint id = some c → Q c h) ∧
      (h.store.readCheckpoint id = none →
        E (.checkpointNotFound s!"Unknown checkpoint id: {id}.") h) := by
  unfold get
  rw [wp_bind, wp_get]
  cases h.store.readCheckpoint id <;> simp

variable {sessionId : String}

@[simp] theorem wp_getMeta {Q : SessionMeta → Host J → Prop} :
    wp I (getMeta sessionId) Q E h ↔
      (∀ m, h.store.readMeta sessionId = some m → Q m h) ∧
      (h.store.readMeta sessionId = none →
        E (.sessionNotFound s!"Unknown session id: {sessionId}.") h) := by
  unfold getMeta
  rw [wp_bind, wp_get]
  cases h.store.readMeta sessionId <;> simp

@[simp] theorem wp_head {Q : Option (Checkpoint J) → Host J → Prop} :
    wp I (head sessionId) Q E h ↔ Q (h.store.head sessionId) h := by
  simp [head]

/-- `resolve` only reads. -/
theorem wp_resolve {Q : String → Host J → Prop} {identifier : String} (hQ : ∀ id, Q id h)
    (hE : ∀ e, E e h) : wp I (resolve identifier) Q E h := by
  unfold resolve
  rw [wp_bind, wp_get, wp_ite]
  refine ⟨fun _ => (wp_pure _).mpr (hQ _), fun _ => ?_⟩
  dsimp only
  split
  · exact (wp_throw _).mpr (hE _)
  · exact (wp_pure _).mpr (hQ _)

/-- The host, some steps after the store was `st` at reading `n` of the clock: the invariant holds, and
every head that was admissible still is. -/
structure Within (env : Environment) (n : Nat) (st : Store J) (h : Host J) : Prop where
  intact : StoreIntact env h.clock h.store
  heads : ∀ sessionId headId, HeadIntact env n st sessionId headId →
    HeadIntact env h.clock h.store sessionId headId

namespace Within

variable {n : Nat} {st : Store J}

theorem refl (hst : StoreIntact env h.clock h.store) : Within env h.clock h.store h :=
  ⟨hst, fun _ _ => id⟩

variable {fs : List Bool}

theorem advance (hw : Within env n st h) {k : Nat} (hk : h.clock ≤ k) :
    Within env n st { h with clock := k, faults := fs } :=
  ⟨hw.intact.mono hk, fun _ _ hh => (hw.heads _ _ hh).mono hk⟩

theorem withMeta (hw : Within env n st h)
    (hm : ∀ id, m.headId = some id →
      ∃ c ∈ h.store.checkpoints, c.id = id ∧ c.sessionId = m.sessionId) :
    Within env n st { h with store := h.store.withMeta m, faults := fs } :=
  ⟨hw.intact.withMeta hm, hw.heads⟩

theorem without (hw : Within env n st h) {id : String}
    (hid : ∀ m ∈ h.store.metas, m.headId ≠ some id) :
    Within env n st { h with store := h.store.without id, faults := fs } :=
  ⟨hw.intact.without hid, fun _ _ hh => (hw.heads _ _ hh).without id⟩

end Within

theorem wp_writeMeta_within {n : Nat} {st : Store J} (hw : Within env n st h)
    (hm : ∀ id, m.headId = some id →
      ∃ c ∈ h.store.checkpoints, c.id = id ∧ c.sessionId = m.sessionId) :
    wp (Within env n st) (writeMeta m)
      (fun _ h' => Within env n st h' ∧ h'.store.checkpoints = h.store.checkpoints)
      (fun _ => Within env n st) h :=
  wp_writeMeta (fun _ _ => ⟨hw.advance le_rfl, hw.advance le_rfl⟩)
    fun _ => ⟨hw.withMeta hm, hw.withMeta hm, rfl⟩

theorem wp_put {n : Nat} {c : Checkpoint J} (hst : StoreIntact env n h.store) (hn : n < h.clock)
    (hid : c.id = mintedId env n) (hparent : HeadIntact env n h.store c.sessionId c.parentId) :
    wp (Within env n h.store) (put env c)
      (fun stored h' => Within env n h.store h' ∧
        HeadIntact env h'.clock h'.store c.sessionId (some stored.id))
      (fun _ => Within env n h.store) h := by
  have hfresh : ¬ Known env n c.id := hid ▸ not_known_mintedId
  have hknown : Known env h.clock c.id := ⟨n, hn, hid⟩
  have hbefore : Within env n h.store h := ⟨hst.mono hn.le, fun _ _ hh => hh.mono hn.le⟩
  unfold put
  rw [wp_bind, wp_get, wp_bind]
  generalize hstored : ({ c with seq := h.store.nextSeq c.sessionId } : Checkpoint J) = stored
  have hsid : stored.id = c.id := by rw [← hstored]
  have hss : stored.sessionId = c.sessionId := by rw [← hstored]
  have hrow : StoreIntact env h.clock (h.store.withCheckpoint stored) :=
    hst.withCheckpoint hn.le (hsid ▸ hfresh) (hsid ▸ hknown) (by rw [← hstored])
      (by rw [← hstored]; exact hparent)
  have hafter : ∀ fs, Within env n h.store
      { h with store := h.store.withCheckpoint stored, faults := fs } := fun _ =>
    ⟨hrow, fun _ _ hh => hh.withCheckpoint hn.le (hsid ▸ hfresh)⟩
  have hmem : stored ∈ (h.store.withCheckpoint stored).checkpoints := mem_upsert_self
  refine wp_writeCheckpoint (fun fs _ => ⟨hbefore.advance le_rfl, hbefore.advance le_rfl⟩)
    fun fs => ⟨hafter fs, ?_⟩
  -- the row is written; the head pointer follows it or stays where it was
  unfold advanceHead
  simp only [wp_bind, wp_now, wp_get, wp_pure]
  refine ⟨(hafter fs).advance (Nat.le_succ _), ?_⟩
  refine wp_post (wp_writeMeta_within ((hafter fs).advance (Nat.le_succ _)) fun id hhead =>
    ⟨stored, hmem, ?_, ?_⟩) (fun _ h' hh => ⟨hh.1, ?_⟩) fun _ _ => id
  · exact Option.some.inj (hhead ▸ (headId_advancedMeta stored _).symm)
  · exact (sessionId_advancedMeta stored _).symm
  · rw [← hss]
    exact hh.1.intact.headIntact_of_mem (hh.2 ▸ hmem)

theorem wp_prune {keep : Option Int}
    (hst : StoreIntact env h.clock h.store) :
    wp (Within env h.clock h.store) (prune sessionId keep)
      (fun _ => Within env h.clock h.store) (fun _ => Within env h.clock h.store) h := by
  unfold prune
  cases keep with
  | none => exact (wp_pure _).mpr (Within.refl hst)
  | some keep =>
    dsimp only
    rw [wp_bind, wp_get]
    -- deletions leave the metadata alone, so no deleted id becomes a head meanwhile
    refine wp_post (Q := fun _ h' => Within env h.clock h.store h' ∧ h'.store.metas = h.store.metas)
      (wp_forM _ _ (fun c hc h' hJ => ?_) ⟨Within.refl hst, rfl⟩) (fun _ _ => And.left) fun _ _ => id
    obtain ⟨hw, hmetas⟩ := hJ
    have hnot : ∀ m ∈ h'.store.metas, m.headId ≠ some c.id := by
      rw [hmetas]
      exact hst.pruned_not_head hc
    exact wp_write (fun _ _ => ⟨hw.advance le_rfl, hw.advance le_rfl⟩)
      fun _ => ⟨hw.without hnot, hw.without hnot, hmetas⟩

end StoreM

/-! ### The verbs -/

/-- The invariant of a process: the store is intact and every `Session` object holds an admissible
head, stale or not. -/
structure Intact (env : Environment) (w : World J) : Prop where
  store : StoreIntact env w.host.clock w.host.store
  sessions : ∀ s ∈ w.sessions, HeadIntact env w.host.clock w.host.store s.sessionId s.headId

namespace SessionM

variable {env : SessionEnvironment J} {w : World J}

/-- Run at `w`, the program keeps the invariant at every moment and ends with `Q`. -/
def Keeps (env : SessionEnvironment J) {α : Type} (m : SessionM J α) (Q : α → World J → Prop)
    (w : World J) : Prop :=
  wp (Intact env.toEnvironment) m (fun a w' => Intact env.toEnvironment w' ∧ Q a w')
    (fun _ => Intact env.toEnvironment) w

section Rules

variable {α β : Type} {Q : α → World J → Prop} {R : β → World J → Prop}

theorem Keeps.bind {m : SessionM J α} {f : α → SessionM J β} (hm : Keeps env m Q w)
    (hf : ∀ a w', Intact env.toEnvironment w' → Q a w' → Keeps env (f a) R w') :
    Keeps env (m >>= f) R w :=
  (wp_bind m f).mpr (wp_post hm (fun a w' h => hf a w' h.1 h.2) fun _ _ => id)

theorem Keeps.pure (hw : Intact env.toEnvironment w) {a : α} (ha : Q a w) :
    Keeps env (Pure.pure a) Q w :=
  (wp_pure a).mpr ⟨hw, ha⟩

theorem Keeps.throw (hw : Intact env.toEnvironment w) (e : SessionException) :
    Keeps env (Prog.throw e) Q w :=
  (wp_throw e).mpr hw

theorem Keeps.mono {Q' : α → World J → Prop} {m : SessionM J α} (hm : Keeps env m Q w)
    (h : ∀ a w', Q a w' → Q' a w') : Keeps env m Q' w :=
  wp_post hm (fun a w' hh => ⟨hh.1, h a w' hh.2⟩) fun _ _ => id

theorem Keeps.get_bind {f : World J → SessionM J β} (h : Keeps env (f w) R w) :
    Keeps env (Prog.get >>= f) R w := by
  unfold Keeps
  rw [wp_bind, wp_get]
  exact h

theorem Keeps.throwIf_bind (hw : Intact env.toEnvironment w) {c : Prop} [Decidable c]
    {e : SessionException} {f : Unit → SessionM J β} (h : ¬c → Keeps env (f ()) R w) :
    Keeps env (Prog.throwIf c e >>= f) R w := by
  unfold Keeps
  rw [wp_bind, wp_throwIf]
  exact ⟨fun _ => hw, h⟩

theorem Keeps.ofExcept_bind (hw : Intact env.toEnvironment w) (x : Except SessionException α)
    {f : α → SessionM J β} (h : ∀ a, x = .ok a → Keeps env (f a) R w) :
    Keeps env (Prog.ofExcept x >>= f) R w := by
  unfold Keeps
  rw [wp_bind, wp_ofExcept]
  exact ⟨fun a ha => h a ha, fun _ _ => hw⟩

theorem Keeps.session_bind (hw : Intact env.toEnvironment w) {i : Nat} {f : Session → SessionM J β}
    (h : ∀ s ∈ w.sessions, Keeps env (f s) R w) : Keeps env (session i >>= f) R w := by
  unfold Keeps session
  simp only [wp_bind, wp_get]
  cases hs : w.sessions[i]? with
  | none => exact (wp_throw _).mpr hw
  | some s => exact (wp_pure s).mpr (h s (List.mem_of_getElem? hs))

theorem Keeps.agent_bind (hw : Intact env.toEnvironment w) {i : Nat} {f : Agent J → SessionM J β}
    (h : ∀ a, Keeps env (f a) R w) : Keeps env (agent i >>= f) R w := by
  unfold Keeps agent
  simp only [wp_bind, wp_get]
  cases w.agents[i]? with
  | none => exact (wp_throw _).mpr hw
  | some a => exact (wp_pure a).mpr (h a)

theorem Keeps.modifyAgents (hw : Intact env.toEnvironment w) (f : World J → List (Agent J)) :
    Keeps env (Prog.modify fun w => { w with agents := f w })
      (fun _ w' => w' = { w with agents := f w }) w :=
  (wp_modify _).mpr ⟨⟨hw.store, hw.sessions⟩, ⟨hw.store, hw.sessions⟩, rfl⟩

/-- A `Session` object may be given any admissible head. -/
theorem Keeps.setSession (hw : Intact env.toEnvironment w) {i : Nat} {s : Session}
    (hs : HeadIntact env.toEnvironment w.host.clock w.host.store s.sessionId s.headId) :
    Keeps env (setSession i s) (fun _ w' => w' = { w with sessions := w.sessions.set i s }) w := by
  have hw' : Intact env.toEnvironment { w with sessions := w.sessions.set i s } := by
    refine ⟨hw.store, fun t ht => ?_⟩
    rcases List.mem_or_eq_of_mem_set ht with ht | rfl
    · exact hw.sessions t ht
    · exact hs
  exact (wp_modify _).mpr ⟨hw', hw', rfl⟩

/-- A program of the store that stays within the invariant keeps the process's. The heads of the
`Session` objects may be known from an earlier moment, `n` and `st`. -/
theorem Keeps.onStore_since {n : Nat} {st : Store J}
    (hs : ∀ s ∈ w.sessions, HeadIntact env.toEnvironment n st s.sessionId s.headId)
    {m : StoreM J α} {Q : α → Host J → Prop}
    (hm : wp (StoreM.Within env.toEnvironment n st) m
      (fun a h => StoreM.Within env.toEnvironment n st h ∧ Q a h)
      (fun _ => StoreM.Within env.toEnvironment n st) w.host) :
    Keeps env (SessionM.onStore m) (fun a w' => w' = { w with host := w'.host } ∧ Q a w'.host) w := by
  have hlift : ∀ h, StoreM.Within env.toEnvironment n st h →
      Intact env.toEnvironment { w with host := h } := fun h hh =>
    ⟨hh.intact, fun s hs' => hh.heads _ _ (hs s hs')⟩
  unfold Keeps SessionM.onStore
  rw [wp_zoom]
  exact wp_mono hm hlift (fun a h hh => ⟨hlift h hh.1, rfl, hh.2⟩) fun _ h hh => hlift h hh

theorem Keeps.onStore (hw : Intact env.toEnvironment w) {m : StoreM J α} {Q : α → Host J → Prop}
    (hm : wp (StoreM.Within env.toEnvironment w.host.clock w.host.store) m
      (fun a h => StoreM.Within env.toEnvironment w.host.clock w.host.store h ∧ Q a h)
      (fun _ => StoreM.Within env.toEnvironment w.host.clock w.host.store) w.host) :
    Keeps env (SessionM.onStore m) (fun a w' => w' = { w with host := w'.host } ∧ Q a w'.host) w :=
  Keeps.onStore_since hw.sessions hm

theorem Keeps.get (hw : Intact env.toEnvironment w) {id : String} {f : Checkpoint J → SessionM J β}
    (h : ∀ c ∈ w.host.store.checkpoints, c.id = id → Keeps env (f c) R w) :
    Keeps env (SessionM.onStore (StoreM.get id) >>= f) R w := by
  refine Keeps.bind (Q := fun c w' => w' = w ∧ c ∈ w.host.store.checkpoints ∧ c.id = id)
    ((Keeps.onStore hw (Q := fun c h => h = w.host ∧ c ∈ w.host.store.checkpoints ∧ c.id = id)
      ?_).mono fun c w' hh => ?_) fun c w' _ hc => ?_
  · rw [StoreM.wp_get_checkpoint]
    exact ⟨fun c hc => ⟨StoreM.Within.refl hw.store, rfl, mem_of_readCheckpoint hc⟩,
      fun _ => StoreM.Within.refl hw.store⟩
  · obtain ⟨h1, h2, h3⟩ := hh
    exact ⟨by rw [h1, h2], h3⟩
  · obtain ⟨rfl, hmem, hid⟩ := hc
    exact h c hmem hid

theorem Keeps.getMeta (hw : Intact env.toEnvironment w) {sessionId : String}
    {f : SessionMeta → SessionM J β}
    (h : ∀ m ∈ w.host.store.metas, m.sessionId = sessionId → Keeps env (f m) R w) :
    Keeps env (SessionM.onStore (StoreM.getMeta sessionId) >>= f) R w := by
  refine Keeps.bind (Q := fun m w' => w' = w ∧ m ∈ w.host.store.metas ∧ m.sessionId = sessionId)
    ((Keeps.onStore hw
      (Q := fun m h => h = w.host ∧ m ∈ w.host.store.metas ∧ m.sessionId = sessionId)
      ?_).mono fun c w' hh => ?_) fun c w' _ hc => ?_
  · rw [StoreM.wp_getMeta]
    exact ⟨fun m hm => ⟨StoreM.Within.refl hw.store, rfl, mem_of_readMeta hm⟩,
      fun _ => StoreM.Within.refl hw.store⟩
  · obtain ⟨h1, h2, h3⟩ := hh
    exact ⟨by rw [h1, h2], h3⟩
  · obtain ⟨rfl, hmem, hid⟩ := hc
    exact h c hmem hid

theorem Keeps.now (hw : Intact env.toEnvironment w) :
    Keeps env (SessionM.now env)
      (fun _ w' => w' = { w with host := { w.host with clock := w.host.clock + 1 } }) w := by
  refine (Keeps.onStore hw (Q := fun _ h => h = { w.host with clock := w.host.clock + 1 }) ?_).mono
    fun _ w' hh => hh.2 ▸ hh.1
  rw [StoreM.wp_now]
  have hadv : StoreM.Within env.toEnvironment w.host.clock w.host.store
      { w.host with clock := w.host.clock + 1 } :=
    (StoreM.Within.refl hw.store).advance (Nat.le_succ _)
  exact ⟨hadv, hadv, rfl⟩

theorem Keeps.uuid4 (hw : Intact env.toEnvironment w) :
    Keeps env (SessionM.uuid4 env)
      (fun hex w' => hex = env.hex w.host.clock ∧
        w' = { w with host := { w.host with clock := w.host.clock + 1 } }) w := by
  refine (Keeps.onStore hw
    (Q := fun hex h => hex = env.hex w.host.clock ∧ h = { w.host with clock := w.host.clock + 1 })
    ?_).mono fun _ w' hh => ⟨hh.2.1, hh.2.2 ▸ hh.1⟩
  rw [StoreM.wp_uuid4]
  have hadv : StoreM.Within env.toEnvironment w.host.clock w.host.store
      { w.host with clock := w.host.clock + 1 } :=
    (StoreM.Within.refl hw.store).advance (Nat.le_succ _)
  exact ⟨hadv, hadv, rfl, rfl⟩

theorem Keeps.writeMeta (hw : Intact env.toEnvironment w) {m : SessionMeta}
    (hm : ∀ id, m.headId = some id →
      ∃ c ∈ w.host.store.checkpoints, c.id = id ∧ c.sessionId = m.sessionId) :
    Keeps env (SessionM.onStore (StoreM.writeMeta m)) (fun _ w' => w' = { w with host := w'.host }) w :=
  (Keeps.onStore hw (Q := fun _ _ => True) (wp_post
    (StoreM.wp_writeMeta_within (StoreM.Within.refl hw.store) hm) (fun _ _ hh => ⟨hh.1, trivial⟩)
    fun _ _ => id)).mono fun _ _ hh => hh.1

end Rules

/-- **Persisting a checkpoint keeps the invariant**: the new id is minted before the write, so no row,
parent link or stale head names it yet. -/
theorem keeps_persist (hw : Intact env.toEnvironment w) (i : Nat) (reply : Option (AgentMessage J))
    (label : String) (status : SessionStatus) :
    Keeps env (persist env i reply label status) (fun _ _ => True) w := by
  unfold persist
  refine Keeps.session_bind hw fun s hs => Keeps.agent_bind hw fun a => ?_
  refine (Keeps.uuid4 hw).bind fun hex w₁ hw₁ h₁ => (Keeps.now hw₁).bind fun createdAt w₂ hw₂ h₂ => ?_
  refine Keeps.ofExcept_bind hw₂ _ fun runState _ => ?_
  generalize env.capture s.trace a (reply.getD (emptyReply env a.name)) = captured
  obtain ⟨hhex, h₁⟩ := h₁
  have hclock : w₂.host.clock = w.host.clock + 2 := by rw [h₂, h₁]
  have hstore : w₂.host.store = w.host.store := by rw [h₂, h₁]
  have hsessions : w₂.sessions = w.sessions := by rw [h₂, h₁]
  have hput := StoreM.wp_put (h := w₂.host) (n := w.host.clock)
    (c := snapshot s captured ("ck_" ++ hex) createdAt runState label status)
    (hstore ▸ hw.store) (by omega) (hhex ▸ rfl) (hstore ▸ hw.sessions s hs)
  have hheads : ∀ t ∈ w₂.sessions,
      HeadIntact env.toEnvironment w.host.clock w₂.host.store t.sessionId t.headId := by
    rw [hsessions, hstore]
    exact hw.sessions
  refine (Keeps.onStore_since hheads hput).bind fun stored w₃ hw₃ h₃ => ?_
  exact (Keeps.setSession hw₃ h₃.2).bind fun _ w₄ hw₄ _ => Keeps.pure hw₄ trivial

theorem keeps_writeInitialMeta (hw : Intact env.toEnvironment w) (agentName : String) {s : Session} :
    Keeps env (writeInitialMeta env agentName s) (fun _ _ => True) w := by
  unfold writeInitialMeta
  refine (Keeps.now hw).bind fun now w₁ hw₁ _ => ?_
  exact (Keeps.writeMeta hw₁ fun id hid => by cases hid).mono fun _ _ _ => trivial

theorem keeps_restoreAgentHistory (hw : Intact env.toEnvironment w) (i : Nat) (source : Checkpoint J) :
    Keeps env (restoreAgentHistory env i source) (fun _ w' => w'.host = w.host) w := by
  unfold restoreAgentHistory
  refine Keeps.session_bind hw fun s _ => Keeps.agent_bind hw fun a => ?_
  exact (Keeps.modifyAgents hw _).mono fun _ _ h => by rw [h]

theorem keeps_setAgent (hw : Intact env.toEnvironment w) (i : Nat) (a : Agent J) :
    Keeps env (setAgent i a) (fun _ _ => True) w :=
  (Keeps.modifyAgents hw _).mono fun _ _ _ => trivial

theorem keeps_restoreAgent (hw : Intact env.toEnvironment w) (source : Checkpoint J) :
    Keeps env (restoreAgent env source) (fun _ _ => True) w := by
  unfold restoreAgent
  refine Keeps.ofExcept_bind hw _ fun a _ => Keeps.get_bind ?_
  exact (Keeps.modifyAgents hw _).bind fun _ w₁ hw₁ _ => Keeps.pure hw₁ trivial

theorem keeps_chooseSessionId (hw : Intact env.toEnvironment w) (sessionId : Option String) :
    Keeps env (chooseSessionId env sessionId) (fun _ _ => True) w := by
  unfold chooseSessionId
  split
  · exact Keeps.pure hw trivial
  · exact (Keeps.uuid4 hw).bind fun _ w₁ hw₁ _ => Keeps.pure hw₁ trivial

/-- The head of a new `Session` object is one its session stores, or none. -/
theorem keeps_adoptOrCreate (hw : Intact env.toEnvironment w) (agentName : String) (existing : Bool)
    {s : Session} (hs : s.headId = none) :
    Keeps env (adoptOrCreate env existing agentName s)
      (fun s' w' => HeadIntact env.toEnvironment w'.host.clock w'.host.store s'.sessionId s'.headId)
      w := by
  unfold adoptOrCreate
  split
  · unfold adoptExisting
    refine Keeps.get_bind (Keeps.pure hw ?_)
    cases hhead : w.host.store.head s.sessionId with
    | none => exact HeadIntact.none
    | some c =>
      obtain ⟨hmem, hcs⟩ := hw.store.head_mem hhead
      have := hw.store.headIntact_of_mem hmem
      rwa [hcs] at this
  · unfold createSession assertSessionAbsent
    refine Keeps.bind (Q := fun _ _ => True) (Keeps.get_bind ?_) fun _ w₁ hw₁ _ => ?_
    · unfold Keeps
      rw [wp_throwIf]
      exact ⟨fun _ => hw, fun _ => ⟨hw, trivial⟩⟩
    · refine (keeps_writeInitialMeta hw₁ agentName).bind fun _ w₂ hw₂ _ => Keeps.pure hw₂ ?_
      rw [hs]
      exact HeadIntact.none

theorem keeps_construct (hw : Intact env.toEnvironment w) (agentIndex : Nat)
    (sessionId : Option String) (policy : CheckpointPolicy) (trace : TraceCapture)
    (tags : List String) (parentSessionId : Option String) (existing : Bool) :
    Keeps env (construct env agentIndex sessionId policy trace tags parentSessionId existing)
      (fun _ _ => True) w := by
  unfold construct
  refine Keeps.agent_bind hw fun a => Keeps.throwIf_bind hw fun _ => ?_
  refine (keeps_chooseSessionId hw sessionId).bind fun id w₁ hw₁ _ => ?_
  refine (keeps_adoptOrCreate hw₁ a.name existing ?hnone).bind fun s w₂ hw₂ hs => Keeps.get_bind ?_
  case hnone => rfl
  have hw₃ : Intact env.toEnvironment { w₂ with sessions := w₂.sessions ++ [s] } := by
    refine ⟨hw₂.store, fun t ht => ?_⟩
    rcases List.mem_append.mp ht with ht | ht
    · exact hw₂.sessions t ht
    · rw [List.mem_singleton] at ht
      exact ht ▸ hs
  refine Keeps.bind (Q := fun _ _ => True) ((wp_modify _).mpr ⟨hw₃, hw₃, trivial⟩) ?_
  exact fun _ w₄ hw₄ _ => Keeps.pure hw₄ trivial

theorem keeps_forkFrom (hw : Intact env.toEnvironment w) (checkpointId : String)
    (policy : CheckpointPolicy) (trace : TraceCapture) (tags : List String) :
    Keeps env (forkFrom env checkpointId policy trace tags) (fun _ _ => True) w := by
  unfold forkFrom
  refine Keeps.get hw fun source _ _ => ?_
  refine (keeps_restoreAgent hw source).bind fun a w₁ hw₁ _ => ?_
  refine (Keeps.uuid4 hw₁).bind fun hex w₂ hw₂ _ => ?_
  refine (keeps_construct hw₂ _ _ _ _ _ _ _).bind fun i w₃ hw₃ _ => ?_
  exact (keeps_persist hw₃ i none "fork" .active).bind fun _ w₄ hw₄ _ => Keeps.pure hw₄ trivial

theorem keeps_assertOwnCheckpoint (hw : Intact env.toEnvironment w) (s : Session)
    (at? : Option String) : Keeps env (assertOwnCheckpoint s at?) (fun _ _ => True) w := by
  unfold assertOwnCheckpoint
  split
  · exact Keeps.pure hw trivial
  · refine Keeps.get hw fun source _ _ => ?_
    unfold Keeps
    rw [wp_throwIf]
    exact ⟨fun _ => hw, fun _ => ⟨hw, trivial⟩⟩

theorem keeps_fork (hw : Intact env.toEnvironment w) (i : Nat) (at? : Option String) :
    Keeps env (fork env i at?) (fun _ _ => True) w := by
  unfold fork
  refine Keeps.session_bind hw fun s _ => ?_
  split
  · exact Keeps.throw hw _
  · refine (keeps_assertOwnCheckpoint hw s at?).bind fun _ w₁ hw₁ _ => ?_
    exact keeps_forkFrom hw₁ _ _ _ _

/-- **Rewinding keeps the invariant**: the target is read, checked to be the session's own and still
stored when the metadata names it. -/
theorem keeps_rewind (hw : Intact env.toEnvironment w) (i : Nat) (toId : String) :
    Keeps env (rewind env i toId) (fun _ _ => True) w := by
  unfold rewind
  refine Keeps.get hw fun target htarget hid => Keeps.session_bind hw fun s _ => ?_
  refine Keeps.throwIf_bind hw fun hown => ?_
  have hown : target.sessionId = s.sessionId := not_not.mp hown
  refine (keeps_restoreAgentHistory hw i target).bind fun _ w₁ hw₁ h₁ => ?_
  have htarget₁ : target ∈ w₁.host.store.checkpoints := h₁ ▸ htarget
  have hhead : HeadIntact env.toEnvironment w₁.host.clock w₁.host.store s.sessionId (some toId) := by
    have := hw₁.store.headIntact_of_mem htarget₁
    rwa [hown, hid] at this
  refine (Keeps.setSession hw₁ (s := { s with headId := some toId }) hhead).bind
    fun _ w₂ hw₂ h₂ => ?_
  have hhost₂ : w₂.host = w₁.host := by rw [h₂]
  refine Keeps.getMeta hw₂ fun m _ hms => ?_
  refine (Keeps.now hw₂).bind fun now w₃ hw₃ h₃ => ?_
  have hrows : w₃.host.store.checkpoints = w₁.host.store.checkpoints := by rw [h₃, ← hhost₂]
  refine (Keeps.writeMeta hw₃ fun id hmid => ?_).mono fun _ _ _ => trivial
  refine ⟨target, hrows ▸ htarget₁, ?_, hown.trans hms.symm⟩
  exact hid.trans (Option.some.inj hmid)

theorem keeps_edit (hw : Intact env.toEnvironment w) (i : Nat)
    (transform : List (AgentMessage J) → Except SessionException (List (AgentMessage J)))
    (label : String) : Keeps env (edit env i transform label) (fun _ _ => True) w := by
  unfold edit
  refine Keeps.session_bind hw fun s _ => Keeps.agent_bind hw fun a => ?_
  refine Keeps.ofExcept_bind hw _ fun history _ => ?_
  refine (keeps_setAgent hw _ _).bind fun _ w₁ hw₁ _ => ?_
  exact (keeps_persist hw₁ _ _ _ _).bind fun _ w₂ hw₂ _ => Keeps.pure hw₂ trivial

theorem keeps_replaceMeta (hw : Intact env.toEnvironment w) {m m' : SessionMeta}
    (hm : m ∈ w.host.store.metas) (hhead : m'.headId = m.headId) (hs : m'.sessionId = m.sessionId) :
    Keeps env (onStore (StoreM.writeMeta m')) (fun _ w' => w' = { w with host := w'.host }) w := by
  refine Keeps.writeMeta hw fun id hid => ?_
  obtain ⟨c, hc, hcid, hcs⟩ := hw.store.head_stored m hm id (hhead ▸ hid)
  exact ⟨c, hc, hcid, hcs.trans hs.symm⟩

theorem keeps_complete (hw : Intact env.toEnvironment w) (i : Nat) :
    Keeps env (complete env i) (fun _ _ => True) w := by
  unfold complete
  refine Keeps.session_bind hw fun s _ => Keeps.getMeta hw fun m hm _ => ?_
  refine (Keeps.now hw).bind fun now w₁ hw₁ h₁ => ?_
  have hm₁ : m ∈ w₁.host.store.metas := by rw [h₁]; exact hm
  refine (keeps_replaceMeta hw₁ hm₁ ?_ ?_).mono fun _ _ _ => trivial
  all_goals rfl

theorem keeps_tag (hw : Intact env.toEnvironment w) (i : Nat) (names : List String) :
    Keeps env (tag env i names) (fun _ _ => True) w := by
  unfold tag
  refine Keeps.session_bind hw fun s hs => Keeps.getMeta hw fun m hm _ => ?_
  refine (Keeps.now hw).bind fun now w₁ hw₁ h₁ => ?_
  have hm₁ : m ∈ w₁.host.store.metas := by rw [h₁]; exact hm
  have hs₁ : s ∈ w₁.sessions := by rw [h₁]; exact hs
  refine (keeps_replaceMeta hw₁ hm₁ ?_ ?_).bind fun _ w₂ hw₂ h₂ => ?_
  · rfl
  · rfl
  have hs₂ : s ∈ w₂.sessions := by rw [h₂]; exact hs₁
  exact (Keeps.setSession hw₂ (s := { s with tags := mergeTags m.tags names }) (hw₂.sessions s hs₂)).mono
    fun _ _ _ => trivial

theorem keeps_adopt (hw : Intact env.toEnvironment w) (i : Nat) (checkpointId label : String) :
    Keeps env (adopt env i checkpointId label) (fun _ _ => True) w := by
  unfold adopt
  refine Keeps.get hw fun source _ _ => ?_
  refine (keeps_restoreAgentHistory hw i source).bind fun _ w₁ hw₁ _ => ?_
  exact (keeps_persist hw₁ _ _ _ _).bind fun _ w₂ hw₂ _ => Keeps.pure hw₂ trivial

theorem keeps_appendContext (hw : Intact env.toEnvironment w) (i : Nat)
    (checkpointId label : String) :
    Keeps env (appendContext env i checkpointId label) (fun _ _ => True) w := by
  unfold appendContext
  refine Keeps.get hw fun source _ _ => Keeps.session_bind hw fun s _ => ?_
  refine Keeps.agent_bind hw fun a => (keeps_setAgent hw _ _).bind fun _ w₁ hw₁ _ => ?_
  exact (keeps_persist hw₁ _ _ _ _).bind fun _ w₂ hw₂ _ => Keeps.pure hw₂ trivial

theorem keeps_checkpoint (hw : Intact env.toEnvironment w) (i : Nat) (label : String) :
    Keeps env (checkpoint env i label) (fun _ _ => True) w := by
  unfold checkpoint
  refine Keeps.session_bind hw fun s _ => Keeps.getMeta hw fun m _ _ => ?_
  refine Keeps.agent_bind hw fun a => ?_
  exact (keeps_persist hw _ _ _ _).bind fun _ w₁ hw₁ _ => Keeps.pure hw₁ trivial

theorem keeps_recordTurn (hw : Intact env.toEnvironment w) (i : Nat) (reply : AgentMessage J) :
    Keeps env (recordTurn env i reply) (fun _ _ => True) w := by
  unfold recordTurn
  refine Keeps.session_bind hw fun s _ => ?_
  split
  · unfold Keeps
    rw [wp_tryCatch]
    have hpersist := (keeps_persist hw i (some reply) "" .active).bind
      (f := fun _ => pure ()) (R := fun _ _ => True) fun _ w₁ hw₁ _ => Keeps.pure hw₁ trivial
    exact wp_post hpersist (fun _ _ => id) fun _ w₁ hw₁ => (wp_pure _).mpr ⟨hw₁, trivial⟩
  · exact Keeps.pure hw trivial

theorem keeps_resolve (hw : Intact env.toEnvironment w) (identifier : String) :
    Keeps env (onStore (StoreM.resolve identifier)) (fun _ w' => w' = w) w := by
  refine (Keeps.onStore hw (Q := fun _ h => h = w.host)
    (StoreM.wp_resolve (fun _ => ?_) fun _ => ?_)).mono fun _ w' hh => ?_
  · exact ⟨StoreM.Within.refl hw.store, rfl⟩
  · exact StoreM.Within.refl hw.store
  · rw [hh.1, hh.2]

theorem keeps_head (hw : Intact env.toEnvironment w) (sessionId : String) :
    Keeps env (onStore (StoreM.head sessionId)) (fun _ w' => w' = w) w := by
  refine (Keeps.onStore hw (Q := fun _ h => h = w.host) (StoreM.wp_head.mpr ?_)).mono
    fun _ w' hh => ?_
  · exact ⟨StoreM.Within.refl hw.store, rfl⟩
  · rw [hh.1, hh.2]

theorem keeps_appendOutput (hw : Intact env.toEnvironment w) (i : Nat)
    (identifier label : String) :
    Keeps env (appendOutput env i identifier label) (fun _ _ => True) w := by
  unfold appendOutput
  refine (keeps_resolve hw identifier).bind fun sessionId w₁ hw₁ _ => ?_
  refine Keeps.getMeta hw₁ fun m _ _ => Keeps.throwIf_bind hw₁ fun _ => ?_
  refine (keeps_head hw₁ sessionId).bind fun head w₂ hw₂ _ => ?_
  cases head with
  | none => exact Keeps.throw hw₂ _
  | some head =>
    refine Keeps.session_bind hw₂ fun s _ => Keeps.agent_bind hw₂ fun a => ?_
    refine (keeps_setAgent hw₂ _ _).bind fun _ w₃ hw₃ _ => ?_
    exact (keeps_persist hw₃ _ _ _ _).bind fun _ w₄ hw₄ _ => Keeps.pure hw₄ trivial

theorem keeps_resumeSource (hw : Intact env.toEnvironment w) (sessionId : String)
    (given : Option String) : Keeps env (resumeSource sessionId given) (fun _ _ => True) w := by
  unfold resumeSource
  split
  · exact Keeps.get hw fun source _ _ => Keeps.throwIf_bind hw fun _ => Keeps.pure hw trivial
  · refine (keeps_head hw sessionId).bind fun source w₁ hw₁ _ => ?_
    cases source with
    | none => exact Keeps.throw hw₁ _
    | some source => exact Keeps.pure hw₁ trivial

theorem keeps_resume (hw : Intact env.toEnvironment w) (identifier : String)
    (checkpointId : Option String) (policy : CheckpointPolicy) (trace : TraceCapture) :
    Keeps env (resume env identifier checkpointId policy trace) (fun _ _ => True) w := by
  unfold resume
  refine (keeps_resolve hw identifier).bind fun sessionId w₁ hw₁ _ => ?_
  refine (keeps_resumeSource hw₁ sessionId _).bind fun source w₂ hw₂ _ => ?_
  refine (keeps_restoreAgent hw₂ source).bind fun a w₃ hw₃ _ => ?_
  refine (keeps_construct hw₃ _ _ _ _ _ _ _).bind fun i w₄ hw₄ _ => ?_
  cases checkpointId.filter (· ≠ "") with
  | none => exact Keeps.pure hw₄ trivial
  | some id =>
    exact (keeps_rewind hw₄ i source.id).bind fun _ w₅ hw₅ _ => Keeps.pure hw₅ trivial

end SessionM

/-! ### Runs -/

variable {env : SessionEnvironment J} {w : World J}

open SessionM

theorem keeps_void {α : Type} {m : SessionM J α} {Q : α → World J → Prop}
    (h : Keeps env m Q w) : Keeps env (do let _ ← m; pure ()) (fun _ _ => True) w :=
  h.bind fun _ _ hw' _ => Keeps.pure hw' trivial

/-- Every operation keeps the invariant at each of its writes, whether it returns or raises. -/
theorem SessionOp.keeps_run (op : SessionOp J) (hw : Intact env.toEnvironment w) :
    Keeps env (op.run env) (fun _ _ => True) w := by
  cases op with
  | newAgent a => exact (Keeps.modifyAgents hw _).mono fun _ _ _ => trivial
  | agentRuns i run => exact Keeps.agent_bind hw fun a => keeps_setAgent hw i (run a)
  | newSession a sessionId policy trace tags parent =>
    exact keeps_void (keeps_construct hw a sessionId policy trace tags parent false)
  | resume identifier checkpointId policy trace =>
    exact keeps_void (keeps_resume hw identifier checkpointId policy trace)
  | forkFrom checkpointId policy trace tags =>
    exact keeps_void (keeps_forkFrom hw checkpointId policy trace tags)
  | checkpoint i label => exact keeps_void (keeps_checkpoint hw i label)
  | recordTurn i reply => exact keeps_recordTurn hw i reply
  | fork i at? => exact keeps_void (keeps_fork hw i at?)
  | rewind i toId => exact keeps_rewind hw i toId
  | edit i transform label => exact keeps_edit hw i transform label
  | adopt i checkpointId label => exact keeps_void (keeps_adopt hw i checkpointId label)
  | appendContext i checkpointId label => exact keeps_void (keeps_appendContext hw i checkpointId label)
  | appendOutput i identifier label => exact keeps_void (keeps_appendOutput hw i identifier label)
  | tag i names => exact keeps_tag hw i names
  | complete i => exact keeps_complete hw i
  | prune sessionId keep =>
    exact (Keeps.onStore hw (Q := fun _ _ => True) (wp_post (StoreM.wp_prune hw.store)
      (fun _ _ h => ⟨h, trivial⟩) fun _ _ => id)).mono fun _ _ _ => trivial

theorem wp_runOps (env : SessionEnvironment J) (ops : List (SessionOp J)) (hw : Intact env.toEnvironment w) :
    wp (Intact env.toEnvironment) (runOps env ops) (fun _ => Intact env.toEnvironment)
      (fun _ => Intact env.toEnvironment) w := by
  refine wp_forM ops _ (fun op _ w' hw' => ?_) hw
  rw [wp_tryCatch]
  exact wp_post (op.keeps_run hw') (fun _ _ h => h.1) fun _ _ h => (wp_pure _).mpr h

/-- A process on an empty store, with agents but no `Session` object yet. -/
def World.fresh (backend : Backend) (faults : List Bool) (agents : List (Agent J)) : World J :=
  { host := { store := { backend }, faults }, agents }

theorem intact_fresh (env : Environment) (backend : Backend) (faults : List Bool)
    (agents : List (Agent J)) : Intact env (World.fresh backend faults agents) where
  store :=
    { ids_nodup := List.nodup_nil
      seq_distinct := List.Pairwise.nil
      parent_older := fun _ hc => by cases hc
      head_stored := fun _ hm => by cases hm
      ids_known := fun _ hc => by cases hc
      parents_known := fun _ hc => by cases hc
      metas_nodup := List.nodup_nil }
  sessions := fun _ hs => by cases hs

/-- `p` is the stored parent of `c`. -/
def StoredParent (st : Store J) (p c : Checkpoint J) : Prop :=
  p ∈ st.checkpoints ∧ c ∈ st.checkpoints ∧ c.parentId = some p.id

theorem StoreIntact.seq_lt_of_ancestor {env : Environment} {n : Nat} {st : Store J}
    (h : StoreIntact env n st) {c d : Checkpoint J} (hcd : Relation.TransGen (StoredParent st) c d) :
    c.seq < d.seq := by
  induction hcd with
  | single hcd => exact (h.parent_older _ hcd.2.1 _ hcd.1 hcd.2.2).2
  | tail _ hde ih => exact ih.trans (h.parent_older _ hde.2.1 _ hde.1 hde.2.2).2

theorem StoreIntact.history_seq_nodup {env : Environment} {n : Nat} {st : Store J}
    (h : StoreIntact env n st) (sessionId : String) :
    ((st.history sessionId).map (·.seq)).Nodup := by
  have hperm : (st.history sessionId).Perm (st.readSessionCheckpoints sessionId) :=
    List.mergeSort_perm ..
  rw [(hperm.map _).nodup_iff, List.Nodup, List.pairwise_map]
  refine List.pairwise_filter.mpr (h.seq_distinct.imp fun hne hc hd => ?_)
  exact hne ((of_decide_eq_true hc).trans (of_decide_eq_true hd).symm)

/-- **Session store integrity.** Take any backend, any failures of its writes, any agents and any
sequence of verbs on any number of `Session` objects. At every moment of the run, between two writes
of one verb too: the sequence numbers of a session's history are distinct; a stored parent is an older
checkpoint, so no checkpoint is its own ancestor; a checkpoint is listed by exactly its own session's
history; and a session's head is none or a checkpoint of that session. -/
theorem session_store_integrity (env : SessionEnvironment J) (backend : Backend)
    (faults : List Bool) (agents : List (Agent J)) (ops : List (SessionOp J)) :
    let o := runOps env ops (World.fresh backend faults agents)
    ∀ w ∈ World.fresh backend faults agents :: o.visited ++ [o.final],
      let st := w.host.store
      (∀ sessionId, ((st.history sessionId).map (·.seq)).Nodup) ∧
      (∀ p c, StoredParent st p c → p.seq < c.seq) ∧
      (∀ c, ¬ Relation.TransGen (StoredParent st) c c) ∧
      (∀ c ∈ st.checkpoints, ∀ sessionId, c ∈ st.history sessionId ↔ c.sessionId = sessionId) ∧
      ∀ m ∈ st.metas, m.headId = none ∨ ∃ c ∈ st.history m.sessionId, m.headId = some c.id := by
  intro o w hw st
  have hrun := wp_runOps env ops (intact_fresh env.toEnvironment backend faults agents)
  have hintact : Intact env.toEnvironment w := by
    rcases List.mem_append.mp hw with hw | hw
    · rcases List.mem_cons.mp hw with rfl | hw
      · exact intact_fresh _ backend faults agents
      · exact hrun.1 w hw
    · rw [List.mem_singleton] at hw
      subst hw
      have hfinal := hrun.2
      revert hfinal
      cases hres : (runOps env ops (World.fresh backend faults agents)).result <;> exact id
  have hst := hintact.store
  refine ⟨hst.history_seq_nodup, fun p c h => (hst.parent_older c h.2.1 p h.1 h.2.2).2,
    fun c h => lt_irrefl _ (hst.seq_lt_of_ancestor h), fun c hc sessionId => ?_, fun m hm => ?_⟩
  · rw [mem_history]
    exact and_iff_right hc
  · cases hid : m.headId with
    | none => exact Or.inl rfl
    | some id =>
      obtain ⟨c, hc, rfl, hcs⟩ := hst.head_stored m hm id hid
      exact Or.inr ⟨c, mem_history.mpr ⟨hc, hcs⟩, rfl⟩

end VidbyteSdk.Sessions
