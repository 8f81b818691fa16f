import VidbyteSdk.Sessions.Integrity
import VidbyteSdk.Sessions.Isolation

/-!
# Verbs that fail

`rewind`, `edit`, `adopt`, `append_context` and `append_output` read what they need, put a new history into the
agent, and then write to the store. A verb that raises while it reads has changed nothing. One whose writes fail
has already changed the agent, so it has changed nothing only where the new history is the old one.
-/

namespace VidbyteSdk.Sessions

open VidbyteSdk.Lib Prog

variable {J : Type}

/-- The agent code the sessions call, with the message codec `export_state` uses. -/
structure CodecEnvironment (J : Type) extends SessionEnvironment J where
  messageToDict : AgentMessage J → J
  exportState_history : ∀ a runState, exportState a = .ok runState →
    runState.history = a.history.map messageToDict

/-- The verbs that change the history of the bound agent. -/
inductive SessionVerb (J : Type) where
  | rewind (toId : String)
  | edit (transform : List (AgentMessage J) → Except SessionException (List (AgentMessage J))) (label : String)
  | adopt (checkpointId label : String)
  | appendContext (checkpointId label : String)
  | appendOutput (identifier label : String)

namespace SessionVerb

def run (env : SessionEnvironment J) (i : Nat) : SessionVerb J → SessionM J Unit
  | rewind toId => SessionM.rewind env i toId
  | edit transform label => SessionM.edit env i transform label
  | adopt checkpointId label => do
    let _ ← SessionM.adopt env i checkpointId label
    pure ()
  | appendContext checkpointId label => do
    let _ ← SessionM.appendContext env i checkpointId label
    pure ()
  | appendOutput identifier label => do
    let _ ← SessionM.appendOutput env i identifier label
    pure ()

end SessionVerb

/-! ### What a verb may change -/

/-- The history and tool-call memory of a session's agent, its live head and its stored head. -/
structure Held (J : Type) where
  history : List (AgentMessage J)
  toolCallContexts : List J
  head : Option String
  storedHead : Option String
  deriving DecidableEq

/-- What the session object `i` holds. -/
def held (i : Nat) (w : World J) : Option (Held J) :=
  w.sessions[i]?.bind fun s => w.agents[s.agent]?.map fun a =>
    ⟨a.history, a.toolCallContexts, s.headId, (w.host.store.readMeta s.sessionId).bind (·.headId)⟩

/-- The checkpoint stored at the head of the session object `i` has the serialized history of its agent. -/
def HeadHoldsHistory (env : CodecEnvironment J) (i : Nat) (w : World J) : Prop :=
  ∃ s a id c, w.sessions[i]? = some s ∧ w.agents[s.agent]? = some a ∧ s.headId = some id ∧
    w.host.store.readCheckpoint id = some c ∧ c.runState.history = a.history.map env.messageToDict

/-- A verb that raises has changed nothing, and one that returns has stored what the agent holds. -/
structure VerbAtomic (env : CodecEnvironment J) (i : Nat) (verb : SessionVerb J) (w : World J) : Prop where
  raises : ∀ e, (verb.run env.toSessionEnvironment i w).result = .error e →
    held i (verb.run env.toSessionEnvironment i w).final = held i w
  returns : (verb.run env.toSessionEnvironment i w).result = .ok () →
    HeadHoldsHistory env i (verb.run env.toSessionEnvironment i w).final

/-! ### When it does -/

/-- The next `n` writes of the store succeed. -/
def WritesSucceed (n : Nat) (h : Host J) : Prop := ∀ fault ∈ h.faults.take n, fault = false

instance (n : Nat) (h : Host J) : Decidable (WritesSucceed n h) :=
  inferInstanceAs (Decidable (∀ fault ∈ h.faults.take n, fault = false))

def takesSession (st : Store J) (sessionId : String) : Bool :=
  !(st.backend = .file && !isPlainSegment sessionId)

namespace SessionVerb

/-- A checkpoint's history with no tool-call memory, as `_restore_agent_history` leaves the agent. -/
def restored (env : SessionEnvironment J) (a : Agent J) (source : Checkpoint J) : Agent J :=
  { a with history := source.runState.history.map env.messageFromDict, toolCallContexts := [] }

/-- The head `append_output` appends the output of. -/
def outputSource (w : World J) (identifier : String) : Option (Checkpoint J) :=
  match (StoreM.resolve identifier w.host).result with
  | .error _ => none
  | .ok sessionId =>
    match w.host.store.readMeta sessionId with
    | none => none
    | some m => if m.status = .completed then w.host.store.head sessionId else none

/-- The agent as the verb leaves it before it writes; `none` where the verb raises before it touches the agent. -/
def rewritten (env : SessionEnvironment J) (w : World J) (s : Session) (a : Agent J) :
    SessionVerb J → Option (Agent J)
  | rewind toId =>
    match w.host.store.readCheckpoint toId with
    | none => none
    | some target => if target.sessionId = s.sessionId then some (restored env a target) else none
  | edit transform _ => (transform a.history).toOption.map fun history => { a with history, toolCallContexts := [] }
  | adopt checkpointId _ => (w.host.store.readCheckpoint checkpointId).map (restored env a)
  | appendContext checkpointId _ => (w.host.store.readCheckpoint checkpointId).map fun source =>
      { a with history := a.history ++ SessionM.frameResumedHistory env a.name source }
  | appendOutput identifier _ => (outputSource w identifier).map fun head =>
      { a with history := a.history ++ [SessionM.extractLastOutput env a.name head] }

/-- The writes a verb makes for the agent `a` succeed: the metadata of a rewind, or else a new checkpoint. -/
def Writes (env : SessionEnvironment J) (w : World J) (s : Session) (a : Agent J) : SessionVerb J → Prop
  | rewind _ => (w.host.store.readMeta s.sessionId).isSome ∧ takesSession w.host.store s.sessionId ∧
      WritesSucceed 1 w.host
  | _ => (env.exportState a).isOk ∧ takesSession w.host.store s.sessionId ∧ WritesSucceed 2 w.host

def Serialized (env : CodecEnvironment J) (w : World J) : SessionVerb J → Prop
  | rewind toId => ∀ target, w.host.store.readCheckpoint toId = some target →
      (target.runState.history.map env.messageFromDict).map env.messageToDict = target.runState.history
  | _ => True

def InPlace (s : Session) (a a' : Agent J) : SessionVerb J → Prop
  | rewind toId => a'.history = a.history ∧ a'.toolCallContexts = a.toolCallContexts ∧ s.headId = some toId
  | _ => a'.history = a.history ∧ a'.toolCallContexts = a.toolCallContexts

/-- The condition under which a verb is atomic. -/
def Safe (env : CodecEnvironment J) (w : World J) (s : Session) (a : Agent J) (verb : SessionVerb J) : Prop :=
  ∀ a', verb.rewritten env.toSessionEnvironment w s a = some a' →
    verb.Writes env.toSessionEnvironment w s a' ∧ verb.Serialized env w ∨
      ¬ verb.Writes env.toSessionEnvironment w s a' ∧ verb.InPlace s a a'

end SessionVerb

/-! ### The writes of the store -/

namespace StoreM

variable {env : Environment} {h : Host J} {E : SessionException → Host J → Prop}

theorem writesSucceed_two (h : Host J) :
    WritesSucceed 2 h ↔ WritesSucceed 1 h ∧ WritesSucceed 1 { h with faults := h.faults.tail } := by
  unfold WritesSucceed
  rcases h.faults with _ | ⟨f, _ | ⟨g, faults⟩⟩ <;> simp

variable {Q : Unit → Host J → Prop}

theorem wp_write_iff {change : Store J → Store J} :
    wp (fun _ => True) (write change) Q E h ↔
      (WritesSucceed 1 h → Q () { h with store := change h.store, faults := h.faults.tail }) ∧
      (¬ WritesSucceed 1 h → E (.store "Failed to write session file.") { h with faults := h.faults.tail }) := by
  obtain ⟨store, clock, faults⟩ := h
  unfold write WritesSucceed
  rw [wp_bind, wp_get]
  rcases faults with _ | ⟨_ | _, faults⟩ <;> simp

theorem wp_writeMeta_iff {m : SessionMeta} :
    wp (fun _ => True) (writeMeta m) Q E h ↔
      (takesSession h.store m.sessionId = true ∧ WritesSucceed 1 h →
        Q () { h with store := h.store.withMeta m, faults := h.faults.tail }) ∧
      (takesSession h.store m.sessionId = true → ¬ WritesSucceed 1 h →
        E (.store "Failed to write session file.") { h with faults := h.faults.tail }) ∧
      (takesSession h.store m.sessionId = false →
        E (.store s!"Invalid session id for file store: {m.sessionId}.") h) := by
  have htakes : h.store.refusesMeta m = !takesSession h.store m.sessionId := by
    rw [takesSession, Bool.not_not]
    rfl
  unfold writeMeta
  rw [wp_bind, wp_get, wp_ite, wp_throw, wp_write_iff, htakes]
  cases takesSession h.store m.sessionId <;> simp

theorem wp_writeCheckpoint_iff {c : Checkpoint J} (hid : isPlainSegment c.id = true) :
    wp (fun _ => True) (writeCheckpoint c) Q E h ↔
      (takesSession h.store c.sessionId = true ∧ WritesSucceed 1 h →
        Q () { h with store := h.store.withCheckpoint c, faults := h.faults.tail }) ∧
      (takesSession h.store c.sessionId = true → ¬ WritesSucceed 1 h →
        E (.store "Failed to write session file.") { h with faults := h.faults.tail }) ∧
      (takesSession h.store c.sessionId = false →
        E (.store s!"Invalid session or checkpoint id for file store: {c.sessionId} / {c.id}.") h) := by
  have htakes : h.store.refusesCheckpoint c = !takesSession h.store c.sessionId := by
    rw [takesSession, Bool.not_not, Store.refusesCheckpoint, hid, Bool.and_true]
  unfold writeCheckpoint
  rw [wp_bind, wp_get, wp_ite, wp_throw, wp_write_iff, htakes]
  cases takesSession h.store c.sessionId <;> simp

/-- `put` of a plain id writes the checkpoint and moves the head, or raises and leaves the metadata alone. -/
theorem wp_put_cases {c : Checkpoint J} (hid : isPlainSegment c.id = true) :
    wp (fun _ => True) (put env c)
      (fun stored h' => (takesSession h.store c.sessionId = true ∧ WritesSucceed 2 h) ∧
        stored = { c with seq := h.store.nextSeq c.sessionId } ∧
        h'.store.checkpoints = (h.store.withCheckpoint stored).checkpoints)
      (fun _ h' => ¬ (takesSession h.store c.sessionId = true ∧ WritesSucceed 2 h) ∧
        h'.store.metas = h.store.metas) h := by
  unfold put
  simp only [wp_bind, wp_get]
  generalize hstored : ({ c with seq := h.store.nextSeq c.sessionId } : Checkpoint J) = stored
  have hsid : stored.sessionId = c.sessionId := by rw [← hstored]
  have hplain : isPlainSegment stored.id = true := by rw [← hstored]; exact hid
  rw [wp_writeCheckpoint_iff hplain, writesSucceed_two, hsid]
  refine ⟨?_, fun _ hfirst => ⟨fun h => hfirst h.2.1, rfl⟩,
    fun hnot => ⟨fun h => Bool.false_ne_true (hnot.symm.trans h.1), rfl⟩⟩
  rintro ⟨htakes, hfirst⟩
  unfold advanceHead
  simp only [wp_bind, wp_now, wp_get, wp_pure]
  refine ⟨trivial, ?_⟩
  rw [wp_writeMeta_iff, sessionId_advancedMeta, hsid]
  exact ⟨fun hboth => ⟨⟨htakes, hfirst, hboth.2⟩, trivial, rfl⟩,
    fun _ hsecond => ⟨fun h => hsecond h.2.2, rfl⟩, fun hnot => absurd (htakes.symm.trans hnot) (by decide)⟩

/-- `resolve` reads only. -/
theorem resolve_final (identifier : String) (h : Host J) : (resolve identifier h).final = h := by
  have hread : wp (fun _ => True) (resolve identifier) (fun _ h' => h' = h) (fun _ h' => h' = h) h :=
    wp_resolve (fun _ => rfl) fun _ => rfl
  cases hresult : (resolve identifier h).result with
  | ok a => exact (wp_ends hread).1 a hresult
  | error e => exact (wp_ends hread).2 e hresult

theorem wp_resolve_iff {Q : String → Host J → Prop} {identifier : String} :
    wp (fun _ => True) (resolve identifier) Q E h ↔
      (∀ id, (resolve identifier h).result = .ok id → Q id h) ∧
        ∀ e, (resolve identifier h).result = .error e → E e h := by
  have hfinal := resolve_final identifier h
  unfold wp
  rw [hfinal]
  cases hresult : (resolve identifier h).result <;> simp

end StoreM

/-! ### The verbs' runs -/

namespace SessionM

variable {w : World J} {i : Nat} {s : Session} {a : Agent J} {E : SessionException → World J → Prop}

theorem wp_session {Q : Session → World J → Prop} (hs : w.sessions[i]? = some s) :
    wp (fun _ => True) (session i) Q E w ↔ Q s w := by
  unfold session
  rw [wp_bind, wp_get, hs]
  exact wp_pure s

theorem wp_agent {Q : Agent J → World J → Prop} (ha : w.agents[i]? = some a) :
    wp (fun _ => True) (agent i) Q E w ↔ Q a w := by
  unfold agent
  rw [wp_bind, wp_get, ha]
  exact wp_pure a

/-- Whether `_persist` can write the agent's state. -/
def Persists (env : SessionEnvironment J) (w : World J) (s : Session) (a : Agent J) : Prop :=
  (env.exportState a).isOk ∧ takesSession w.host.store s.sessionId ∧ WritesSucceed 2 w.host

theorem readCheckpoint_of_fresh {st st' : Store J} {c : Checkpoint J}
    (hfresh : ∀ d ∈ st.checkpoints, d.id ≠ c.id) (hrows : st'.checkpoints = (st.withCheckpoint c).checkpoints) :
    st'.readCheckpoint c.id = some c := by
  have hslot : st.backend.slot c ∉ st.checkpoints.map st.backend.slot := by
    intro h
    obtain ⟨d, hd, heq⟩ := List.mem_map.mp h
    refine hfresh d hd ?_
    cases hb : st.backend <;> rw [hb] at heq <;> exact (Prod.mk.inj heq).2
  have hnone : st.checkpoints.find? (·.id = c.id) = none := by
    rw [List.find?_eq_none]
    intro d hd
    simpa using hfresh d hd
  rw [Store.readCheckpoint, hrows, Store.withCheckpoint, upsert_of_notMem hslot, List.find?_append, hnone]
  simp

/-- `_persist` stores the agent's history at the new head, or raises and changes neither head. -/
theorem wp_persist_cases (env : CodecEnvironment J) (hw : StoreIntact env.toEnvironment w.host.clock w.host.store)
    (hs : w.sessions[i]? = some s) (ha : w.agents[s.agent]? = some a) (reply : Option (AgentMessage J))
    (label : String) (status : SessionStatus) :
    wp (fun _ => True) (persist env.toSessionEnvironment i reply label status)
      (fun _ w' => Persists env.toSessionEnvironment w s a ∧ HeadHoldsHistory env i w')
      (fun _ w' => ¬ Persists env.toSessionEnvironment w s a ∧ held i w' = held i w) w := by
  have hsame : ∀ host : Host J, host.store.metas = w.host.store.metas → held i { w with host } = held i w := by
    intro host hmetas
    simp only [held, Store.readMeta, hmetas]
  unfold persist
  rw [wp_bind, wp_session hs, wp_bind, wp_agent ha]
  unfold uuid4 now onStore
  simp only [wp_bind, wp_zoom, StoreM.wp_uuid4, StoreM.wp_now]
  refine ⟨trivial, trivial, ?_⟩
  rw [wp_ofExcept]
  refine ⟨fun runState hexport => ?_, fun e hexport => ⟨fun h => ?_, hsame _ rfl⟩⟩
  · generalize env.capture s.trace a (reply.getD (emptyReply env.toSessionEnvironment a.name)) = captured
    refine wp_post (wp_mono (StoreM.wp_put_cases (isPlainSegment_mintedId env.toEnvironment w.host.clock))
      (fun _ _ => trivial) (fun _ _ => id) fun _ _ => id) (fun stored host hput => ?_) fun e host hput => ?_
    · obtain ⟨hwrites, hstored, hrows⟩ := hput
      unfold setSession
      simp only [wp_modify, wp_pure]
      have hid : stored.id = mintedId env.toEnvironment w.host.clock := by rw [hstored]; rfl
      have hfresh : ∀ d ∈ w.host.store.checkpoints, d.id ≠ stored.id := by
        intro d hd heq
        exact not_known_mintedId (hid ▸ heq ▸ hw.ids_known d hd)
      refine ⟨trivial, ⟨by rw [hexport]; rfl, hwrites⟩, { s with headId := some stored.id }, a, stored.id, stored, ?_,
        ha, rfl, readCheckpoint_of_fresh hfresh hrows, ?_⟩
      · exact List.getElem?_set_self (List.getElem?_eq_some_iff.mp hs).1
      · rw [hstored]
        exact env.exportState_history a runState hexport
    · exact ⟨fun h => hput.1 h.2, hsame host hput.2⟩
  · have hisOk := h.1
    rw [hexport] at hisOk
    exact absurd hisOk Bool.false_ne_true

theorem held_eq (hs : w.sessions[i]? = some s) (ha : w.agents[s.agent]? = some a) :
    held i w = some ⟨a.history, a.toolCallContexts, s.headId, (w.host.store.readMeta s.sessionId).bind (·.headId)⟩ := by
  rw [held, hs, Option.bind_some, ha, Option.map_some]

theorem getElem?_set_agent (ha : w.agents[s.agent]? = some a) (a' : Agent J) :
    (w.agents.set s.agent a')[s.agent]? = some a' :=
  List.getElem?_set_self (List.getElem?_eq_some_iff.mp ha).1

/-- `_persist` after a verb has changed the agent. -/
theorem wp_persist_rewritten (env : CodecEnvironment J)
    (hw : StoreIntact env.toEnvironment w.host.clock w.host.store)
    (hs : w.sessions[i]? = some s) (ha : w.agents[s.agent]? = some a) (a' : Agent J)
    (reply : Option (AgentMessage J)) (label : String) (status : SessionStatus) :
    wp (fun _ => True) (persist env.toSessionEnvironment i reply label status)
      (fun _ w' => Persists env.toSessionEnvironment w s a' ∧ HeadHoldsHistory env i w')
      (fun _ w' => ¬ Persists env.toSessionEnvironment w s a' ∧
        (held i w' = held i w ↔ a'.history = a.history ∧ a'.toolCallContexts = a.toolCallContexts))
      { w with agents := w.agents.set s.agent a' } := by
  have ha' := getElem?_set_agent ha a'
  refine wp_post (wp_persist_cases env (w := { w with agents := w.agents.set s.agent a' }) hw hs ha' reply label
    status) (fun _ _ => id) fun e w' hraised => ⟨hraised.1, ?_⟩
  rw [hraised.2, held_eq hs ha, held_eq (w := { w with agents := w.agents.set s.agent a' }) hs ha']
  simp only [Option.some.injEq, Held.mk.injEq, and_true]

end SessionM

namespace SessionVerb

open SessionM

variable {env : CodecEnvironment J} {w : World J} {i : Nat} {s : Session} {a : Agent J}

/-- How a verb ends that has read what it needs: its writes decide. -/
def Returned (env : CodecEnvironment J) (w : World J) (i : Nat) (s : Session) (a : Agent J) (verb : SessionVerb J)
    (w' : World J) : Prop :=
  ∃ a', verb.rewritten env.toSessionEnvironment w s a = some a' ∧ verb.Writes env.toSessionEnvironment w s a' ∧
    (HeadHoldsHistory env i w' ↔ verb.Serialized env w)

def RaisedIn (env : CodecEnvironment J) (w : World J) (i : Nat) (s : Session) (a : Agent J) (verb : SessionVerb J)
    (w' : World J) : Prop :=
  verb.rewritten env.toSessionEnvironment w s a = none ∧ held i w' = held i w ∨
    ∃ a', verb.rewritten env.toSessionEnvironment w s a = some a' ∧ ¬ verb.Writes env.toSessionEnvironment w s a' ∧
      (held i w' = held i w ↔ verb.InPlace s a a')

theorem wp_rewind (hs : w.sessions[i]? = some s) (ha : w.agents[s.agent]? = some a) (toId : String) :
    wp (fun _ => True) ((rewind toId).run env.toSessionEnvironment i)
      (fun _ => Returned env w i s a (rewind toId)) (fun _ => RaisedIn env w i s a (rewind toId)) w := by
  unfold run SessionM.rewind onStore restoreAgentHistory setAgent setSession now onStore
  simp only [wp_bind, wp_zoom, StoreM.wp_get_checkpoint]
  refine ⟨fun target htarget => ?_, fun hnone => Or.inl ⟨by rw [rewritten, hnone], rfl⟩⟩
  rw [wp_session hs, wp_throwIf]
  refine ⟨fun hforeign => Or.inl ⟨by rw [rewritten, htarget]; exact if_neg hforeign, rfl⟩, fun hown => ?_⟩
  rw [ne_eq, not_not] at hown
  have hrewritten : (rewind toId).rewritten env.toSessionEnvironment w s a
      = some (restored env.toSessionEnvironment a target) := by
    rw [rewritten, htarget]
    exact if_pos hown
  have hi := (List.getElem?_eq_some_iff.mp hs).1
  have ha' := getElem?_set_agent ha (restored env.toSessionEnvironment a target)
  -- what the session object holds once the agent and the live head have moved
  have hmoved : ∀ host : Host J, host.store.metas = w.host.store.metas →
      (held i { host := host, agents := w.agents.set s.agent (restored env.toSessionEnvironment a target)
                sessions := w.sessions.set i { s with headId := some toId } } = held i w ↔
        InPlace s a (restored env.toSessionEnvironment a target) (rewind toId)) := by
    intro host hmetas
    have hi' := List.getElem?_set_self (a := { s with headId := some toId }) hi
    rw [held_eq hs ha, held_eq (s := { s with headId := some toId }) hi' ha']
    simp only [Option.some.injEq, Held.mk.injEq, Store.readMeta, hmetas, and_true, InPlace, eq_comm]
  rw [wp_session hs, wp_agent ha, wp_modify, wp_modify]
  refine ⟨trivial, trivial, ?_⟩
  rw [StoreM.wp_getMeta]
  refine ⟨fun m hm => ?_, fun hnone => Or.inr ⟨_, hrewritten, fun hwrites => ?_, hmoved _ rfl⟩⟩
  · rw [StoreM.wp_now]
    refine ⟨trivial, ?_⟩
    have hsession : m.sessionId = s.sessionId := (mem_of_readMeta hm).2
    rw [StoreM.wp_writeMeta_iff, hsession]
    refine ⟨fun hboth => ?_, fun _ hwrite => ?_, fun hrefused => ?_⟩
    · obtain ⟨htakes, hwrite⟩ := hboth
      refine ⟨_, hrewritten, ⟨by rw [show w.host.store.readMeta s.sessionId = some m from hm]; rfl, htakes, hwrite⟩, ?_⟩
      have hrow : ∀ host : Host J, host.store.checkpoints = w.host.store.checkpoints →
          host.store.readCheckpoint toId = some target := by
        intro host hrows
        rw [Store.readCheckpoint, hrows]
        exact htarget
      constructor
      · rintro ⟨s', a'', id, c, hs', ha'', hid, hc, hhistory⟩ target' htarget'
        obtain rfl := Option.some.inj ((List.getElem?_set_self hi).symm.trans hs')
        obtain rfl := Option.some.inj (ha'.symm.trans ha'')
        obtain rfl := Option.some.inj hid
        obtain rfl := Option.some.inj ((hrow _ rfl).symm.trans hc)
        obtain rfl := Option.some.inj (htarget.symm.trans htarget')
        exact hhistory.symm
      · intro hserialized
        exact ⟨_, _, toId, target, List.getElem?_set_self hi, ha', rfl, hrow _ rfl, (hserialized target htarget).symm⟩
    · exact Or.inr ⟨_, hrewritten, fun h => hwrite h.2.2, hmoved _ rfl⟩
    · exact Or.inr ⟨_, hrewritten, fun h => Bool.false_ne_true (hrefused.symm.trans h.2.1), hmoved _ rfl⟩
  · have hsome := hwrites.1
    rw [show w.host.store.readMeta s.sessionId = none from hnone] at hsome
    exact Bool.false_ne_true hsome

theorem wp_persist_verb {verb : SessionVerb J} {a' : Agent J} (hw : StoreIntact env.toEnvironment w.host.clock w.host.store)
    (hs : w.sessions[i]? = some s) (ha : w.agents[s.agent]? = some a)
    (hrewritten : verb.rewritten env.toSessionEnvironment w s a = some a')
    (hverb : ∀ toId, verb ≠ rewind toId) (reply : Option (AgentMessage J)) (label : String) :
    wp (fun _ => True) (persist env.toSessionEnvironment i reply label)
      (fun _ => Returned env w i s a verb) (fun _ => RaisedIn env w i s a verb)
      { w with agents := w.agents.set s.agent a' } := by
  have hwrites : verb.Writes env.toSessionEnvironment w s a' = Persists env.toSessionEnvironment w s a' := by
    cases verb with
    | rewind toId => exact absurd rfl (hverb toId)
    | edit | adopt | appendContext | appendOutput => rfl
  have hserialized : verb.Serialized env w := by
    cases verb with
    | rewind toId => exact absurd rfl (hverb toId)
    | edit | adopt | appendContext | appendOutput => trivial
  have hplace : verb.InPlace s a a' = (a'.history = a.history ∧ a'.toolCallContexts = a.toolCallContexts) := by
    cases verb with
    | rewind toId => exact absurd rfl (hverb toId)
    | edit | adopt | appendContext | appendOutput => rfl
  refine wp_post (wp_persist_rewritten env hw hs ha a' reply label .active) (fun _ w' hok => ?_) fun _ w' hraised => ?_
  · exact ⟨a', hrewritten, hwrites ▸ hok.1, iff_of_true hok.2 hserialized⟩
  · exact Or.inr ⟨a', hrewritten, hwrites ▸ hraised.1, by rw [hraised.2, hplace]⟩

theorem wp_edit (hw : StoreIntact env.toEnvironment w.host.clock w.host.store) (hs : w.sessions[i]? = some s)
    (ha : w.agents[s.agent]? = some a)
    (transform : List (AgentMessage J) → Except SessionException (List (AgentMessage J))) (label : String) :
    wp (fun _ => True) ((edit transform label).run env.toSessionEnvironment i)
      (fun _ => Returned env w i s a (edit transform label)) (fun _ => RaisedIn env w i s a (edit transform label))
      w := by
  unfold run SessionM.edit setAgent
  rw [wp_bind, wp_session hs, wp_bind, wp_agent ha, wp_bind, wp_ofExcept]
  refine ⟨fun history hhistory => ?_, fun e herror => Or.inl ⟨by rw [rewritten, herror]; rfl, rfl⟩⟩
  rw [wp_bind, wp_modify, wp_bind]
  simp only [wp_pure]
  refine ⟨trivial, wp_persist_verb hw hs ha ?_ (by intro _ h; cases h) _ _⟩
  rw [rewritten, hhistory]
  rfl

theorem wp_adopt (hw : StoreIntact env.toEnvironment w.host.clock w.host.store) (hs : w.sessions[i]? = some s)
    (ha : w.agents[s.agent]? = some a) (checkpointId label : String) :
    wp (fun _ => True) ((adopt checkpointId label).run env.toSessionEnvironment i)
      (fun _ => Returned env w i s a (adopt checkpointId label))
      (fun _ => RaisedIn env w i s a (adopt checkpointId label)) w := by
  unfold run SessionM.adopt onStore restoreAgentHistory setAgent
  simp only [wp_bind, wp_zoom, StoreM.wp_get_checkpoint, wp_pure]
  refine ⟨fun source hsource => ?_, fun hnone => Or.inl ⟨by rw [rewritten, hnone]; rfl, rfl⟩⟩
  rw [wp_session hs, wp_agent ha, wp_modify]
  refine ⟨trivial, wp_persist_verb hw hs ha ?_ (by intro _ h; cases h) _ _⟩
  rw [rewritten, hsource]
  rfl

theorem wp_appendContext (hw : StoreIntact env.toEnvironment w.host.clock w.host.store)
    (hs : w.sessions[i]? = some s) (ha : w.agents[s.agent]? = some a) (checkpointId label : String) :
    wp (fun _ => True) ((appendContext checkpointId label).run env.toSessionEnvironment i)
      (fun _ => Returned env w i s a (appendContext checkpointId label))
      (fun _ => RaisedIn env w i s a (appendContext checkpointId label)) w := by
  unfold run SessionM.appendContext onStore setAgent
  simp only [wp_bind, wp_zoom, StoreM.wp_get_checkpoint, wp_pure]
  refine ⟨fun source hsource => ?_, fun hnone => Or.inl ⟨by rw [rewritten, hnone]; rfl, rfl⟩⟩
  rw [wp_session hs, wp_agent ha, wp_modify]
  refine ⟨trivial, wp_persist_verb hw hs ha ?_ (by intro _ h; cases h) _ _⟩
  rw [rewritten, hsource]
  rfl

theorem wp_appendOutput (hw : StoreIntact env.toEnvironment w.host.clock w.host.store)
    (hs : w.sessions[i]? = some s) (ha : w.agents[s.agent]? = some a) (identifier label : String) :
    wp (fun _ => True) ((appendOutput identifier label).run env.toSessionEnvironment i)
      (fun _ => Returned env w i s a (appendOutput identifier label))
      (fun _ => RaisedIn env w i s a (appendOutput identifier label)) w := by
  have hnone : outputSource w identifier = none → ∀ w', held i w' = held i w →
      RaisedIn env w i s a (appendOutput identifier label) w' := by
    intro hsource w' hheld
    refine Or.inl ⟨?_, hheld⟩
    rw [rewritten, hsource]
    rfl
  unfold run SessionM.appendOutput onStore setAgent
  simp only [wp_bind, wp_zoom, StoreM.wp_getMeta, wp_pure]
  rw [StoreM.wp_resolve_iff]
  refine ⟨fun sessionId hsession => ⟨fun m hm => ?_, fun hmeta => ?_⟩, fun e herror => ?_⟩
  · rw [wp_throwIf]
    refine ⟨fun hstatus => ?_, fun hstatus => ?_⟩
    · refine hnone ?_ _ rfl
      simp only [outputSource, hsession, hm, if_neg hstatus]
    · rw [ne_eq, not_not] at hstatus
      have hsource : outputSource w identifier = w.host.store.head sessionId := by
        simp only [outputSource, hsession, hm, hstatus, if_true]
      rw [StoreM.wp_head]
      cases hhead : w.host.store.head sessionId with
      | none =>
        dsimp only
        rw [wp_throw]
        exact hnone (hsource.trans hhead) _ rfl
      | some head =>
        dsimp only
        rw [wp_bind, wp_session hs, wp_bind, wp_agent ha, wp_bind, wp_modify, wp_bind]
        simp only [wp_pure]
        refine ⟨trivial, wp_persist_verb hw hs ha ?_ (by intro _ h; cases h) _ _⟩
        rw [rewritten, hsource, hhead]
        rfl
  · refine hnone ?_ _ rfl
    simp only [outputSource, hsession, hmeta]
  · refine hnone ?_ _ rfl
    simp only [outputSource, herror]

theorem wp_run (hw : StoreIntact env.toEnvironment w.host.clock w.host.store) (hs : w.sessions[i]? = some s)
    (ha : w.agents[s.agent]? = some a) (verb : SessionVerb J) :
    wp (fun _ => True) (verb.run env.toSessionEnvironment i) (fun _ => Returned env w i s a verb)
      (fun _ => RaisedIn env w i s a verb) w := by
  cases verb with
  | rewind toId => exact wp_rewind hs ha toId
  | edit transform label => exact wp_edit hw hs ha transform label
  | adopt checkpointId label => exact wp_adopt hw hs ha checkpointId label
  | appendContext checkpointId label => exact wp_appendContext hw hs ha checkpointId label
  | appendOutput identifier label => exact wp_appendOutput hw hs ha identifier label

end SessionVerb

/-- A verb is atomic exactly when it raises before it touches the agent, or its writes succeed, or what it puts in
place was in place. -/
theorem verbAtomic_iff (env : CodecEnvironment J) (w : World J) (i : Nat) (s : Session) (a : Agent J)
    (verb : SessionVerb J) (hw : StoreIntact env.toEnvironment w.host.clock w.host.store)
    (hs : w.sessions[i]? = some s) (ha : w.agents[s.agent]? = some a) :
    VerbAtomic env i verb w ↔ verb.Safe env w s a := by
  have hrun := wp_ends (SessionVerb.wp_run hw hs ha verb)
  constructor
  · intro hatomic a' ha'
    cases hresult : (verb.run env.toSessionEnvironment i w).result with
    | ok u =>
      obtain ⟨b, hb, hwrites, hserialized⟩ := hrun.1 u hresult
      obtain rfl := Option.some.inj (hb.symm.trans ha')
      exact Or.inl ⟨hwrites, hserialized.mp (hatomic.returns hresult)⟩
    | error e =>
      rcases hrun.2 e hresult with ⟨hnone, -⟩ | ⟨b, hb, hwrites, hplace⟩
      · rw [hnone] at ha'
        cases ha'
      · obtain rfl := Option.some.inj (hb.symm.trans ha')
        exact Or.inr ⟨hwrites, hplace.mp (hatomic.raises e hresult)⟩
  · intro hsafe
    refine ⟨fun e hresult => ?_, fun hresult => ?_⟩
    · rcases hrun.2 e hresult with ⟨-, hheld⟩ | ⟨b, hb, hwrites, hplace⟩
      · exact hheld
      · rcases hsafe b hb with hok | hinplace
        · exact absurd hok.1 hwrites
        · exact hplace.mpr hinplace.2
    · obtain ⟨b, hb, hwrites, hserialized⟩ := hrun.1 () hresult
      rcases hsafe b hb with hok | hinplace
      · exact hserialized.mpr hok.2
      · exact absurd hwrites hinplace.1

def countingEnvironment : CodecEnvironment Unit where
  toEnvironment := unaryEnvironment
  exportState a := .ok ⟨a.name, a.history.map fun _ => (), ()⟩
  restoreAgent _ := .error (.other "")
  messageFromDict _ := ⟨"", "", "", "response", (), none⟩
  capture _ _ _ := {}
  resumedMetadata _ _ := ()
  emptyMetadata := ()
  messageToDict _ := ()
  exportState_history a runState h := by rw [← Except.ok.inj h]

/-- A new session over a database store that fails the writes of `faults`, with an agent of one message. -/
def oneMessageWorld (faults : List Bool) : World Unit where
  host :=
    { store :=
        { backend := .keyed
          metas := [{ sessionId := "se", headId := none, parentSessionId := none, agentName := "agent"
                      status := .active, createdAt := "", updatedAt := "" }] }
      faults }
  agents := [{ name := "agent", history := [⟨"agent", "user", "hello", "response", (), none⟩], config := () }]
  sessions := [⟨0, "se", .perTurn, .auto, [], none, none⟩]

def dropHistory : SessionVerb Unit := .edit (fun _ => .ok []) "edit"

theorem storeIntact_oneMessageWorld (faults : List Bool) :
    StoreIntact unaryEnvironment (oneMessageWorld faults).host.clock (oneMessageWorld faults).host.store where
  ids_nodup := List.nodup_nil
  seq_distinct := List.Pairwise.nil
  parent_older := fun _ hmem => nomatch hmem
  head_stored m hm id hid := by
    obtain rfl := List.mem_singleton.mp hm
    cases hid
  ids_known := fun _ hmem => nomatch hmem
  parents_known := fun _ hmem => nomatch hmem
  metas_nodup := List.nodup_singleton _

theorem verbAtomic_iff_oneMessageWorld :
    VerbAtomic countingEnvironment 0 dropHistory (oneMessageWorld []) ↔
      dropHistory.Safe countingEnvironment (oneMessageWorld [])
        ⟨0, "se", .perTurn, .auto, [], none, none⟩
        { name := "agent", history := [⟨"agent", "user", "hello", "response", (), none⟩], config := () } :=
  verbAtomic_iff countingEnvironment (oneMessageWorld []) 0 _ _ dropHistory (storeIntact_oneMessageWorld []) rfl rfl

/-- An edit whose checkpoint cannot be written has dropped the history. -/
theorem dropHistory_not_atomic : ¬ VerbAtomic countingEnvironment 0 dropHistory (oneMessageWorld [true]) :=
  fun h => absurd (h.raises (.store "Failed to write session file.") rfl) (by decide)

end VidbyteSdk.Sessions
