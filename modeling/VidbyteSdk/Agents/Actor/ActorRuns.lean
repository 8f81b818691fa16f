import VidbyteSdk.Agents.Actor.Runtime

/-!
# What the runs of an actor runtime come to

What one `send` does, from it what one step does, and from it what holds in every run: the limit of
messages, the one completion, who may set it, and that a coordinator's run always has something left
to do until it is complete.
-/

namespace VidbyteSdk.Agents.Actor

open Lib Util

/-! ### Messages -/

section Messages

variable {ε : Type*} {setup : Setup} {s : State ε} {sender recipient content : String}
  {parentTaskId : Option String}

/-- The actors of `s'` are those of `s`, with more messages in the inboxes of the table. -/
structure Posts (s s' : State ε) : Prop where
  actors : s'.actors = s.actors
  length : s'.spawned.length = s.spawned.length
  actor : ∀ i a, s.spawned[i]? = some a → ∃ new,
    s'.spawned[i]? = some { a with inbox := a.inbox ++ new } ∧ (new ≠ [] → ∃ id, (id, i) ∈ s.actors)

theorem Posts.refl (s : State ε) : Posts s s :=
  ⟨rfl, rfl, fun i a ha => ⟨[], by rw [List.append_nil]; exact ha, fun hnew => absurd rfl hnew⟩⟩

theorem getElem?_put {msg : ActorMessage} {i j : ℕ} {a : AgentActor}
    (ha : s.spawned[j]? = some a) :
    (s.put msg i).spawned[j]? = some { a with inbox := a.inbox ++ if i = j then [msg] else [] } := by
  rw [State.put, State.setActor, List.getElem?_modify, ha]
  split
  · rfl
  · rw [List.append_nil]
    rfl

variable {msg : String × ℕ → ActorMessage}

variable {entries : List (String × ℕ)}

theorem getElem?_foldl_put {j : ℕ} {a : AgentActor} (ha : s.spawned[j]? = some a) :
    (entries.foldl (fun s entry => s.put (msg entry) entry.2) s).spawned[j]? =
      some { a with inbox := a.inbox ++ (entries.filter fun entry => entry.2 = j).map msg } := by
  induction entries generalizing s a with
  | nil =>
    rw [List.filter_nil, List.map_nil, List.append_nil]
    exact ha
  | cons entry entries ih =>
    rw [List.foldl_cons, ih (getElem?_put ha), List.filter_cons]
    split
    · next hmine =>
      rw [if_pos (by simpa using hmine), List.map_cons, List.append_assoc]
      rfl
    · next hother =>
      rw [if_neg (by simpa using hother), List.append_nil]

/-- Only the actors of `s` change. -/
theorem foldl_put_eq :
    entries.foldl (fun s entry => s.put (msg entry) entry.2) s = { s with
      spawned := (entries.foldl (fun s entry => s.put (msg entry) entry.2) s).spawned } := by
  induction entries generalizing s with
  | nil => rfl
  | cons entry entries ih =>
    rw [List.foldl_cons, ih]
    rfl

theorem route_eq (isBoot : Bool) : ∃ spawned output,
    s.route setup isBoot sender recipient content parentTaskId =
      ({ s with spawned := spawned }, output) ∧ output ≠ .maxLoop := by
  unfold State.route
  cases setup.topology with
  | broadcast => exact ⟨_, _, Prod.ext foldl_put_eq rfl, nofun⟩
  | pointToPoint =>
    simp only
    split
    · exact ⟨_, _, rfl, nofun⟩
    · exact ⟨s.spawned, _, rfl, nofun⟩

theorem length_foldl_put :
    (entries.foldl (fun s entry => s.put (msg entry) entry.2) s).spawned.length =
      s.spawned.length := by
  induction entries generalizing s with
  | nil => rfl
  | cons entry entries ih =>
    rw [List.foldl_cons, ih]
    exact List.length_modify ..

theorem posts_route (isBoot : Bool) :
    Posts s (s.route setup isBoot sender recipient content parentTaskId).1 := by
  unfold State.route
  cases setup.topology with
  | broadcast =>
    refine ⟨by rw [foldl_put_eq], length_foldl_put, fun i a ha => ⟨_, getElem?_foldl_put ha, ?_⟩⟩
    intro hne
    obtain ⟨msg, hmsg⟩ := List.exists_mem_of_ne_nil _ hne
    obtain ⟨entry, hentry, -⟩ := List.mem_map.mp hmsg
    obtain ⟨hmem, hi⟩ := List.mem_filter.mp hentry
    refine ⟨entry.1, ?_⟩
    rw [← of_decide_eq_true hi]
    exact (List.mem_filter.mp hmem).1
  | pointToPoint =>
    simp only
    split
    · next k hk =>
      refine ⟨rfl, List.length_modify .., fun i a ha => ⟨_, getElem?_put ha, fun hne => ?_⟩⟩
      obtain ⟨l₁, l₂, heq, -⟩ := List.lookup_eq_some_iff.mp hk
      split at hne
      · next hki =>
        refine ⟨recipient, ?_⟩
        rw [← hki, heq]
        exact List.mem_append_right _ List.mem_cons_self
      · exact absurd rfl hne
    · exact .refl s

/-- What one `send` does: it is counted, and refused, taken as the run's answer or routed. -/
structure Sent (setup : Setup) (sender recipient content : String) (s s' : State ε) : Prop where
  posts : Posts s s'
  messageCount : s'.messageCount = s.messageCount + 1
  busyActors : s'.busyActors = s.busyActors
  returned : s'.returned = s.returned
  booted : s.messageCount < setup.maxLoop ∨ s.bootPending = false → s'.bootPending = false
  spans : ∃ output, s'.spans = s.spans ++ [⟨sender, recipient, content, output⟩] ∧
    (output = .maxLoop ↔ setup.maxLoop ≤ s.messageCount)
  kept : ∀ c, s.completion = some c → s'.completion = some c
  /-- A message over the limit changes no inbox, and it ends the run with the notice. -/
  refused : setup.maxLoop ≤ s.messageCount → s'.spawned = s.spawned ∧
    (s.completion = none → s'.completion = some (.result (limitNotice setup.maxLoop)))
  /-- A message under it can only answer the run. -/
  answered : s.messageCount < setup.maxLoop → s.completion = none → ∀ c, s'.completion = some c →
    c = .result content ∧ s.bootPending = false ∧ isCompletionAddress recipient = true ∧
      (setup.terminationMode = .coordinator → sender = setup.agentName)
  answers : s.messageCount < setup.maxLoop → s.bootPending = false →
    isCompletionAddress recipient = true → sender = setup.agentName → s'.completion ≠ none

theorem complete_eq (completion : Completion ε) :
    s.complete completion = { s with completion := some (s.completion.getD completion) } := by
  obtain ⟨spawned, actors, count, done, pending, reached, busy, spans, returned⟩ := s
  cases done with
  | none => rfl
  | some c => rfl

theorem refuse_eq : s.refuse setup = { s with
    completion := some (s.completion.getD (.result (limitNotice setup.maxLoop)))
    maxLoopReached := s.maxLoopReached || s.completion.isNone } := by
  obtain ⟨spawned, actors, count, done, pending, reached, busy, spans, returned⟩ := s
  cases done with
  | none => simp [State.refuse, complete_eq]
  | some c => simp [State.refuse]

theorem Posts.of_eq {s s' : State ε} (hactors : s'.actors = s.actors)
    (hspawned : s'.spawned = s.spawned) : Posts s s' := by
  refine ⟨hactors, congrArg List.length hspawned, fun i a ha => ⟨[], ?_, fun hne => absurd rfl hne⟩⟩
  rw [List.append_nil, hspawned]
  exact ha

theorem sent_refused (h : setup.maxLoop ≤ s.messageCount) :
    Sent setup sender recipient content s (s.send setup sender recipient content parentTaskId) := by
  have hnever : ∀ {p : Prop}, s.messageCount < setup.maxLoop → p := fun hlt =>
    absurd h (Nat.not_le_of_lt hlt)
  unfold State.send State.deliver
  simp only [if_pos (show s.messageCount + 1 > setup.maxLoop from Nat.lt_succ_of_le h), refuse_eq]
  refine ⟨.of_eq rfl rfl, rfl, rfl, rfl, fun hb => hb.elim hnever id,
    ⟨.maxLoop, rfl, fun _ => h, fun _ => rfl⟩, fun c hc => ?_, fun _ => ⟨rfl, fun hc => ?_⟩,
    fun hlt => hnever hlt, fun hlt => hnever hlt⟩
  · simp only [State.endSpan, hc, Option.getD_some]
  · simp only [State.endSpan, hc, Option.getD_none]

theorem sent_answered (h : s.messageCount < setup.maxLoop) (hboot : s.bootPending = false)
    (haddress : isCompletionAddress recipient = true) :
    Sent setup sender recipient content s (s.send setup sender recipient content parentTaskId) := by
  have hunder : ¬s.messageCount + 1 > setup.maxLoop := Nat.not_lt_of_le h
  have hnever : ∀ {p : Prop}, setup.maxLoop ≤ s.messageCount → p := fun hle =>
    absurd h (Nat.not_lt_of_le hle)
  unfold State.send State.deliver
  simp only [if_neg hunder, hboot, haddress, Bool.not_false, Bool.and_self, if_true]
  unfold State.answerRun
  split
  · next hdropped =>
    refine ⟨.of_eq rfl rfl, rfl, rfl, rfl, fun _ => rfl, ⟨_, rfl, nofun, fun hle => hnever hle⟩,
      fun c => id, fun hle => hnever hle, fun _ hnone c hc => ?_,
      fun _ _ _ hsender => absurd hsender hdropped.2⟩
    rw [show s.completion = some c from hc] at hnone
    cases hnone
  · next htaken =>
    rw [complete_eq]
    refine ⟨.of_eq rfl rfl, rfl, rfl, rfl, fun _ => rfl, ⟨_, rfl, nofun, fun hle => hnever hle⟩,
      fun c hc => ?_, fun hle => hnever hle, fun _ hnone c hc => ?_, fun _ _ _ _ => nofun⟩
    · simp only [State.endSpan, hc, Option.getD_some]
    · simp only [State.endSpan, hnone, Option.getD_none, Option.some.injEq] at hc
      refine ⟨hc.symm, hboot, haddress, fun hmode => ?_⟩
      by_contra hsender
      exact htaken ⟨hmode, hsender⟩

theorem sent_routed (h : s.messageCount < setup.maxLoop)
    (hroute : (!s.bootPending && isCompletionAddress recipient) = false) :
    Sent setup sender recipient content s (s.send setup sender recipient content parentTaskId) := by
  have hunder : ¬s.messageCount + 1 > setup.maxLoop := Nat.not_lt_of_le h
  have hnever : ∀ {p : Prop}, setup.maxLoop ≤ s.messageCount → p := fun hle =>
    absurd h (Nat.not_lt_of_le hle)
  unfold State.send State.deliver
  simp only [if_neg hunder, hroute, Bool.false_eq_true, if_false]
  generalize hcounted : { s with messageCount := s.messageCount + 1, bootPending := false } = t
  have hposts : Posts t (t.route setup s.bootPending sender recipient content parentTaskId).1 :=
    posts_route s.bootPending
  obtain ⟨spawned, output, heq, houtput⟩ : ∃ spawned output,
      t.route setup s.bootPending sender recipient content parentTaskId =
        ({ t with spawned := spawned }, output) ∧ output ≠ .maxLoop := route_eq s.bootPending
  rw [heq] at hposts ⊢
  subst hcounted
  refine ⟨⟨hposts.actors, hposts.length, hposts.actor⟩, rfl, rfl, rfl, fun _ => rfl,
    ⟨output, rfl, fun hmax => absurd hmax houtput, fun hle => hnever hle⟩, fun c => id,
    fun hle => hnever hle, fun _ hnone c hc => ?_, fun _ hboot haddress _ => ?_⟩
  · rw [show s.completion = some c from hc] at hnone
    cases hnone
  · rw [hboot, haddress] at hroute
    cases hroute

theorem sent_send : Sent setup sender recipient content s
    (s.send setup sender recipient content parentTaskId) := by
  by_cases hover : setup.maxLoop ≤ s.messageCount
  · exact sent_refused hover
  · have hunder := Nat.lt_of_not_le hover
    cases hroute : !s.bootPending && isCompletionAddress recipient with
    | false => exact sent_routed hunder hroute
    | true =>
      rw [Bool.and_eq_true, Bool.not_eq_true'] at hroute
      exact sent_answered hunder hroute.1 hroute.2

end Messages

/-! ### The books of the runtime -/

section Books

variable {ε : Type*} {setup : Setup} {s : State ε} {i : ℕ} {a : AgentActor}

def MessageSpan.isRouted (span : MessageSpan) : Bool := decide (span.output ≠ .maxLoop)

/-- The counters say what is there, and only an actor of the table has messages. -/
structure Coherent (setup : Setup) (s : State ε) : Prop where
  busy : s.busyActors = (s.spawned.countP AgentActor.isBusy : ℕ)
  entries : ∀ id i, (id, i) ∈ s.actors → ∃ a, s.spawned[i]? = some a ∧ a.actorId = id
  reachable : ∀ i a, s.spawned[i]? = some a → a.inbox ≠ [] → (a.actorId, i) ∈ s.actors
  routed : (s.spans.filter MessageSpan.isRouted).length = min s.messageCount setup.maxLoop

theorem countP_modify {α : Type*} {p : α → Bool} {l : List α} {i : ℕ} {a : α} {f : α → α}
    (ha : l[i]? = some a) :
    (l.modify i f).countP p + (p a).toNat = l.countP p + (p (f a)).toNat := by
  induction l generalizing i with
  | nil => cases ha
  | cons b l ih =>
    cases i with
    | zero =>
      rw [List.getElem?_cons_zero, Option.some.injEq] at ha
      subst ha
      rw [List.modify_zero_cons, List.countP_cons, List.countP_cons]
      cases p b <;> cases p (f b) <;> simp
    | succ i =>
      rw [List.getElem?_cons_succ] at ha
      have htail := ih ha
      rw [List.modify_succ_cons, List.countP_cons, List.countP_cons]
      omega

theorem Coherent.setActor (h : Coherent setup s) {f : AgentActor → AgentActor} {busyActors : ℤ}
    (ha : s.spawned[i]? = some a) (hid : (f a).actorId = a.actorId)
    (hinbox : (f a).inbox ≠ [] → a.inbox ≠ [])
    (hbusy : busyActors + a.isBusy.toNat = s.busyActors + (f a).isBusy.toNat) :
    Coherent setup { s.setActor i f with busyActors := busyActors } := by
  have hget : ∀ j, (s.spawned.modify i f)[j]? =
      s.spawned[j]?.map fun b => if i = j then f b else b := fun j => List.getElem?_modify ..
  refine ⟨?_, fun id j hentry => ?_, fun j b hb hne => ?_, h.routed⟩
  · have hcount := countP_modify (p := AgentActor.isBusy) (f := f) ha
    have hbefore := h.busy
    show busyActors = ((s.spawned.modify i f).countP AgentActor.isBusy : ℕ)
    omega
  · obtain ⟨b, hb, hbid⟩ := h.entries id j hentry
    refine ⟨if i = j then f b else b, by rw [State.setActor, hget, hb]; rfl, ?_⟩
    split
    · next hij =>
      subst hij
      rw [hb, Option.some.injEq] at ha
      rw [ha, hid, ← ha, hbid]
    · exact hbid
  · rw [State.setActor, hget, Option.map_eq_some_iff] at hb
    obtain ⟨b', hb', rfl⟩ := hb
    split at hne
    · next hij =>
      subst hij
      rw [ha, Option.some.injEq] at hb'
      subst hb'
      rw [if_pos rfl, hid]
      exact h.reachable i a ha (hinbox hne)
    · next hij =>
      rw [if_neg hij]
      exact h.reachable j b' hb' hne

theorem Posts.countP {s s' : State ε} (h : Posts s s') :
    s'.spawned.countP AgentActor.isBusy = s.spawned.countP AgentActor.isBusy := by
  have hmap : s'.spawned.map AgentActor.isBusy = s.spawned.map AgentActor.isBusy := by
    refine List.ext_getElem? fun i => ?_
    rw [List.getElem?_map, List.getElem?_map]
    cases ha : s.spawned[i]? with
    | none =>
      rw [List.getElem?_eq_none_iff] at ha
      rw [List.getElem?_eq_none (by rw [h.length]; exact ha)]
    | some a =>
      obtain ⟨new, ha', -⟩ := h.actor i a ha
      rw [ha']
      rfl
  have hcount := congrArg (List.countP id) hmap
  rwa [List.countP_map, List.countP_map] at hcount

theorem Coherent.sent {sender recipient content : String} {s' : State ε}
    (h : Coherent setup s) (hsent : Sent setup sender recipient content s s') :
    Coherent setup s' := by
  refine ⟨?_, fun id i hentry => ?_, fun i b hb hne => ?_, ?_⟩
  · rw [hsent.busyActors, hsent.posts.countP]
    exact h.busy
  · rw [hsent.posts.actors] at hentry
    obtain ⟨a, ha, hid⟩ := h.entries id i hentry
    obtain ⟨new, ha', -⟩ := hsent.posts.actor i a ha
    exact ⟨_, ha', hid⟩
  · have hlt : i < s.spawned.length := by
      rw [← hsent.posts.length]
      exact (List.getElem?_eq_some_iff.mp hb).1
    have ha := List.getElem?_eq_getElem hlt
    obtain ⟨new, ha', hnew⟩ := hsent.posts.actor i _ ha
    rw [ha', Option.some.injEq] at hb
    subst hb
    rw [hsent.posts.actors]
    by_cases hnil : new = []
    · rw [hnil, List.append_nil] at hne
      exact h.reachable i s.spawned[i] ha hne
    · obtain ⟨id, hentry⟩ := hnew hnil
      obtain ⟨b, hb, hid⟩ := h.entries id i hentry
      rw [ha, Option.some.injEq] at hb
      rw [hb, hid]
      exact hentry
  · obtain ⟨output, hspans, houtput⟩ := hsent.spans
    have hrouted := h.routed
    rw [hspans, hsent.messageCount, List.filter_append, List.length_append, hrouted,
      List.filter_singleton]
    by_cases hover : setup.maxLoop ≤ s.messageCount
    · rw [show MessageSpan.isRouted ⟨sender, recipient, content, output⟩ = false from
        decide_eq_false fun hne => hne (houtput.mpr hover)]
      rw [cond_false, List.length_nil]
      omega
    · rw [show MessageSpan.isRouted ⟨sender, recipient, content, output⟩ = true from
        decide_eq_true fun hmax => hover (houtput.mp hmax)]
      rw [cond_true, List.length_singleton]
      omega

theorem Coherent.complete (h : Coherent setup s) (completion : Completion ε) :
    Coherent setup (s.complete completion) := by
  rw [complete_eq]
  exact ⟨h.busy, h.entries, h.reachable, h.routed⟩

/-- No message is queued, and no actor is handling one. -/
def State.Quiet (s : State ε) : Prop := ∀ a ∈ s.spawned, a.inbox = [] ∧ a.isBusy = false

theorem Coherent.quiet (h : Coherent setup s) (hcheck : s.checkQuiescence = true) : s.Quiet := by
  simp only [State.checkQuiescence, Bool.and_eq_true, Bool.not_eq_true', decide_eq_false_iff_not,
    List.all_eq_true] at hcheck
  obtain ⟨⟨-, hidle⟩, hempty⟩ := hcheck
  have hcount : s.spawned.countP AgentActor.isBusy = 0 := by
    have hbusy := h.busy
    omega
  intro a ha
  refine ⟨?_, Bool.eq_false_iff.mpr (List.countP_eq_zero.mp hcount a ha)⟩
  obtain ⟨i, hi⟩ := List.mem_iff_getElem?.mp ha
  by_contra hne
  have hentry := hempty _ (h.reachable i a hi hne)
  rw [hi] at hentry
  exact hne (List.isEmpty_iff.mp hentry)

theorem Coherent.onReceive {casing : Casing} {msg : ActorMessage} {rest : List ActorMessage}
    (h : Coherent setup s) (ha : s.spawned[i]? = some ⟨a.actorId, msg :: rest, .waiting⟩) :
    Coherent setup (s.onReceive casing i msg rest) := by
  have htaken : Coherent setup
      (s.setActor i fun actor => { actor with inbox := rest }) :=
    h.setActor ha rfl (fun _ => List.cons_ne_nil _ _) rfl
  have ha' : (s.setActor i fun actor => { actor with inbox := rest }).spawned[i]? =
      some ⟨a.actorId, rest, .waiting⟩ := by
    rw [State.setActor, List.getElem?_modify_eq, ha]
    rfl
  unfold State.onReceive
  simp only
  split
  · refine ⟨?_, htaken.entries, htaken.reachable, htaken.routed⟩
    show s.busyActors + 1 - 1 = _
    rw [add_sub_cancel_right]
    exact htaken.busy
  · exact htaken.setActor ha' rfl id (by simp [State.markBusy, AgentActor.isBusy])

theorem Coherent.endCall {s' : State ε} (h : Coherent setup s') {msg : ActorMessage} {phase : Phase}
    (ha : s'.spawned[i]? = some a) (hcalling : a.phase = .calling msg)
    (hphase : ∀ msg, phase ≠ .calling msg) : Coherent setup ((s'.markIdle).setPhase i phase) := by
  refine h.setActor (f := fun actor => { actor with phase := phase }) ha rfl id ?_
  have hbusy : a.isBusy = true := by rw [AgentActor.isBusy, hcalling]
  have hidle : AgentActor.isBusy { a with phase := phase } = false := by
    cases phase with
    | calling msg => exact absurd rfl (hphase msg)
    | _ => rfl
  rw [hbusy, hidle]
  show s'.busyActors - 1 + ((1 : ℕ) : ℤ) = s'.busyActors + ((0 : ℕ) : ℤ)
  omega

theorem Coherent.onReply {msg : ActorMessage} {reply : Reply ε} (h : Coherent setup s)
    (ha : s.spawned[i]? = some a) (hcalling : a.phase = .calling msg) :
    Coherent setup (s.onReply setup i a.actorId msg reply) := by
  cases reply with
  | cancelled => exact h.endCall ha hcalling nofun
  | error exc =>
    have hstopped : Coherent setup ((s.markIdle).setPhase i .stopped) := h.endCall ha hcalling nofun
    have hfailed := hstopped.complete (.raised exc)
    rw [complete_eq] at hfailed
    rw [State.onReply, State.fail, complete_eq]
    exact hfailed
  | text content =>
    unfold State.onReply
    simp only
    split
    · exact h.endCall ha hcalling nofun
    · have hsent : Sent setup a.actorId msg.sender content s
        (s.send setup a.actorId msg.sender content msg.parentTaskId) := sent_send
      obtain ⟨new, ha', -⟩ := hsent.posts.actor i a ha
      exact (h.sent hsent).endCall ha' hcalling nofun

theorem step_cases {casing : Casing} {s' : State ε} {e : Event ε}
    (hs : step setup casing s e = some s') :
    (∃ i id msg rest, e = .receive i ∧ s.spawned[i]? = some ⟨id, msg :: rest, .waiting⟩ ∧
      s' = s.onReceive casing i msg rest) ∨
    (∃ i a msg reply, e = .reply i reply ∧ s.spawned[i]? = some a ∧ a.phase = .calling msg ∧
      s' = s.onReply setup i a.actorId msg reply) ∨
    (e = .poll ∧ setup.terminationMode = .quiescence ∧
      s' = if s.checkQuiescence then s.complete (.result quiescenceNotice) else s) ∨
    (∃ completion, e = .finish ∧ s.completion = some completion ∧ s.returned = none ∧
      s' = s.cleanUp completion) := by
  cases e with
  | receive i =>
    simp only [step] at hs
    split at hs
    · next ha => exact .inl ⟨i, _, _, _, rfl, ha, (Option.some.inj hs).symm⟩
    · cases hs
  | reply i reply =>
    simp only [step] at hs
    split at hs
    · next ha => exact .inr (.inl ⟨i, _, _, reply, rfl, ha, rfl, (Option.some.inj hs).symm⟩)
    · cases hs
  | poll =>
    simp only [step] at hs
    rw [Option.ite_none_right_eq_some] at hs
    exact .inr (.inr (.inl ⟨rfl, hs.1, (Option.some.inj hs.2).symm⟩))
  | finish =>
    simp only [step] at hs
    split at hs
    · next hc hr => exact .inr (.inr (.inr ⟨_, rfl, hc, hr, (Option.some.inj hs).symm⟩))
    · cases hs

theorem Coherent.step {casing : Casing} {s' : State ε} {e : Event ε} (h : Coherent setup s)
    (hs : step setup casing s e = some s') : Coherent setup s' := by
  obtain ⟨i, id, msg, rest, -, ha, rfl⟩ | ⟨i, a, msg, reply, -, ha, hcalling, rfl⟩ |
    ⟨-, -, rfl⟩ | ⟨completion, -, -, -, rfl⟩ := step_cases hs
  · exact h.onReceive (a := ⟨id, [], .waiting⟩) ha
  · exact h.onReply ha hcalling
  · split
    · exact h.complete _
    · exact h
  · refine ⟨?_, nofun, nofun, h.routed⟩
    show s.busyActors - _ = 0
    rw [h.busy, sub_self]

end Books

/-! ### The completion -/

section Completions

variable {ε : Type*} {setup : Setup} {casing : Casing} {s s' : State ε} {i : ℕ} {a : AgentActor}
  {msg : ActorMessage} {e : Event ε}

theorem onReceive_frame (casing : Casing) (s : State ε) (i : ℕ) (msg : ActorMessage)
    (rest : List ActorMessage) :
    (s.onReceive casing i msg rest).completion = s.completion ∧
      (s.onReceive casing i msg rest).messageCount = s.messageCount ∧
      (s.onReceive casing i msg rest).bootPending = s.bootPending := by
  unfold State.onReceive
  simp only
  split
  · exact ⟨rfl, rfl, rfl⟩
  · exact ⟨rfl, rfl, rfl⟩

theorem onReply_text (setup : Setup) (s : State ε) (i : ℕ) (a : AgentActor) (msg : ActorMessage)
    (content : String) :
    content = "" ∧ s.onReply setup i a.actorId msg (.text content) =
      (s.markIdle).setPhase i .waiting ∨
    content ≠ "" ∧ ∃ t, Sent setup a.actorId msg.sender content s t ∧
      s.onReply setup i a.actorId msg (.text content) = (t.markIdle).setPhase i .waiting := by
  unfold State.onReply
  simp only
  split
  · next hempty => exact .inl ⟨hempty, rfl⟩
  · next hne => exact .inr ⟨hne, _, sent_send, rfl⟩

theorem onReply_error (exc : ε) : s.onReply setup i a.actorId msg (.error exc) =
    { (s.markIdle).setPhase i .stopped with
      completion := some (s.completion.getD (.raised exc)) } := by
  rw [State.onReply, State.fail, complete_eq]
  rfl

theorem completion_kept {c : Completion ε} (hc : s.completion = some c)
    (hs : step setup casing s e = some s') : s'.completion = some c := by
  have hcomplete : ∀ completion, (s.complete completion).completion = some c := fun completion => by
    rw [complete_eq, hc, Option.getD_some]
  obtain ⟨i, id, msg, rest, -, -, rfl⟩ | ⟨i, a, msg, reply, -, -, -, rfl⟩ | ⟨-, -, rfl⟩ |
    ⟨completion, -, -, -, rfl⟩ := step_cases hs
  · exact (onReceive_frame ..).1.trans hc
  · cases reply with
    | cancelled => exact hc
    | error exc =>
      rw [onReply_error]
      exact congrArg some (show s.completion.getD _ = c by rw [hc, Option.getD_some])
    | text content =>
      obtain ⟨-, heq⟩ | ⟨-, t, hsent, heq⟩ := onReply_text setup s i a msg content
      · rw [heq]
        exact hc
      · rw [heq]
        exact hsent.kept c hc
  · split
    · exact hcomplete _
    · exact hc
  · exact hc

/-- What completes a coordinator's run in the state `s`. -/
inductive Completes (setup : Setup) (s : State ε) : Event ε → Completion ε → Prop
  | answer {i : ℕ} {a : AgentActor} {msg : ActorMessage} {content : String}
      (hactor : s.spawned[i]? = some a) (hcalling : a.phase = .calling msg)
      (hroot : a.actorId = setup.agentName) (haddress : isCompletionAddress msg.sender = true) :
      Completes setup s (.reply i (.text content)) (.result content)
  | error {i : ℕ} {exc : ε} : Completes setup s (.reply i (.error exc)) (.raised exc)
  | notice {i : ℕ} {content : String} (hover : setup.maxLoop ≤ s.messageCount) :
      Completes setup s (.reply i (.text content)) (.result (limitNotice setup.maxLoop))

theorem completes_of_step {c : Completion ε} (hmode : setup.terminationMode = .coordinator)
    (hnone : s.completion = none) (hs : step setup casing s e = some s')
    (hc : s'.completion = some c) : Completes setup s e c := by
  have hnever : ∀ {p : Prop}, s.completion = some c → p := fun hsome => by
    rw [hnone] at hsome
    cases hsome
  obtain ⟨i, id, msg, rest, -, -, rfl⟩ | ⟨i, a, msg, reply, rfl, ha, hcalling, rfl⟩ |
    ⟨-, hquiescence, -⟩ | ⟨completion, -, hcompletion, -, -⟩ := step_cases hs
  · exact hnever ((onReceive_frame ..).1.symm.trans hc)
  · cases reply with
    | cancelled => exact hnever hc
    | error exc =>
      rw [onReply_error] at hc
      have hset : some (s.completion.getD (.raised exc)) = some c := hc
      rw [hnone, Option.getD_none, Option.some.injEq] at hset
      exact hset ▸ .error
    | text content =>
      obtain ⟨-, heq⟩ | ⟨-, t, hsent, heq⟩ := onReply_text setup s i a msg content
      · rw [heq] at hc
        exact hnever hc
      · rw [heq] at hc
        have ht : t.completion = some c := hc
        by_cases hover : setup.maxLoop ≤ s.messageCount
        · have hnotice := (hsent.refused hover).2 hnone
          rw [ht, Option.some.injEq] at hnotice
          exact hnotice ▸ .notice hover
        · obtain ⟨rfl, -, haddress, hroot⟩ :=
            hsent.answered (Nat.lt_of_not_le hover) hnone c ht
          exact .answer ha hcalling (hroot hmode) haddress
  · rw [hmode] at hquiescence
    cases hquiescence
  · rw [hnone] at hcompletion
    cases hcompletion

/-- A message over the limit: it can only end the run, with the notice. -/
structure Refuses (setup : Setup) (s s' : State ε) : Prop where
  notice : s.completion = none → s'.completion = some (.result (limitNotice setup.maxLoop))
  inboxes : s'.spawned.map AgentActor.inbox = s.spawned.map AgentActor.inbox

theorem refuses_of_step (hover : setup.maxLoop ≤ s.messageCount)
    (hs : step setup casing s e = some s') (hcount : s'.messageCount ≠ s.messageCount) :
    Refuses setup s s' := by
  obtain ⟨i, id, msg, rest, -, -, rfl⟩ | ⟨i, a, msg, reply, -, -, -, rfl⟩ | ⟨-, -, rfl⟩ |
    ⟨completion, -, -, -, rfl⟩ := step_cases hs
  · exact absurd (onReceive_frame ..).2.1 hcount
  · cases reply with
    | cancelled => exact absurd rfl hcount
    | error exc =>
      rw [onReply_error] at hcount
      exact absurd rfl hcount
    | text content =>
      obtain ⟨-, heq⟩ | ⟨-, t, hsent, heq⟩ := onReply_text setup s i a msg content
      · rw [heq] at hcount
        exact absurd rfl hcount
      · rw [heq]
        obtain ⟨hspawned, hnotice⟩ := hsent.refused hover
        refine ⟨hnotice, ?_⟩
        show (List.modify t.spawned i _).map AgentActor.inbox = _
        rw [hspawned]
        refine List.ext_getElem? fun j => ?_
        rw [List.getElem?_map, List.getElem?_map, List.getElem?_modify]
        cases s.spawned[j]? with
        | none => rfl
        | some b =>
          refine congrArg some ?_
          split
          · rfl
          · rfl
  · refine absurd ?_ hcount
    split
    · rw [complete_eq]
    · rfl
  · exact absurd rfl hcount

end Completions

/-! ### The root -/

section Root

variable {ε : Type*} {setup : Setup} {casing : Casing} {s s' : State ε} {i : ℕ} {a : AgentActor}
  {e : Event ε}

/-- The actor has the prompt before it, or is answering it. -/
def AgentActor.IsAsked (actor : AgentActor) : Prop :=
  match actor.phase with
  | .waiting => ∃ msg rest, actor.inbox = msg :: rest ∧ msg.sender = "system" ∧ msg.state = []
  | .calling msg => msg.sender = "system"
  | .stopped => False

def RootAsked (setup : Setup) (s : State ε) : Prop :=
  ∃ (i : ℕ) (a : AgentActor), s.spawned[i]? = some a ∧ a.actorId = setup.agentName ∧ a.IsAsked

/-- The model call of a coordinator's root gives a text, or an error that is no cancellation. -/
def RootAnswers (setup : Setup) (s : State ε) : Event ε → Prop
  | .reply i reply =>
    setup.terminationMode = .coordinator → s.completion = none →
      (s.spawned[i]?).map AgentActor.actorId = some setup.agentName →
      match reply with
      | .text content => content ≠ ""
      | .error _ => True
      | .cancelled => False
  | _ => True

theorem isAsked_of_waiting (hphase : a.phase = .waiting) (hinbox : a.inbox ≠ [])
    (hmsgs : ∀ msg ∈ a.inbox, msg.sender = "system" ∧ msg.state = []) : a.IsAsked := by
  obtain ⟨msg, rest, hcons⟩ := List.exists_cons_of_ne_nil hinbox
  rw [AgentActor.IsAsked, hphase]
  exact ⟨msg, rest, hcons, hmsgs msg (hcons ▸ List.mem_cons_self)⟩

theorem AgentActor.IsAsked.append (h : a.IsAsked) (new : List ActorMessage) :
    AgentActor.IsAsked { a with inbox := a.inbox ++ new } := by
  obtain ⟨id, inbox, phase⟩ := a
  cases phase with
  | waiting =>
    obtain ⟨msg, rest, hinbox, hsystem⟩ := h
    exact ⟨msg, rest ++ new, by rw [show inbox = msg :: rest from hinbox]; rfl, hsystem⟩
  | calling msg => exact h
  | stopped => exact h

theorem RootAsked.setActor {j : ℕ} {f : AgentActor → AgentActor} (ha : s.spawned[i]? = some a)
    (hroot : a.actorId = setup.agentName) (hasked : a.IsAsked) (hij : j ≠ i)
    (hs : s'.spawned = s.spawned.modify j f) : RootAsked setup s' :=
  ⟨i, a, by rw [hs, List.getElem?_modify_ne _ _ hij, ha], hroot, hasked⟩

theorem isTermination_of_system (casing : Casing) {msg : ActorMessage} (hsystem : msg.sender = "system")
    (hstate : msg.state = []) : isTermination casing msg = false := by
  rw [isTermination, isExitSignal, hsystem, hstate]
  rfl

theorem rootAsked_onReceive {j : ℕ} {id : String} {msg : ActorMessage} {rest : List ActorMessage}
    (h : RootAsked setup s) (hj : s.spawned[j]? = some ⟨id, msg :: rest, .waiting⟩) :
    RootAsked setup (s.onReceive casing j msg rest) := by
  obtain ⟨i, a, ha, hroot, hasked⟩ := h
  by_cases hij : j = i
  · subst hij
    rw [ha, Option.some.injEq] at hj
    subst hj
    obtain ⟨msg', rest', hinbox, hsystem, hstate⟩ := hasked
    rw [List.cons.injEq] at hinbox
    obtain ⟨rfl, rfl⟩ := hinbox
    unfold State.onReceive
    simp only [isTermination_of_system casing hsystem hstate]
    refine ⟨j, ⟨id, rest, .calling msg⟩, ?_, hroot, hsystem⟩
    show ((s.spawned.modify j _).modify j _)[j]? = _
    rw [List.getElem?_modify_eq, List.getElem?_modify_eq, ha]
    rfl
  · unfold State.onReceive
    simp only
    split
    · exact RootAsked.setActor ha hroot hasked hij rfl
    · have hmoved : RootAsked setup (s.setActor j fun actor => { actor with inbox := rest }) :=
        RootAsked.setActor ha hroot hasked hij rfl
      refine ⟨i, a, ?_, hroot, hasked⟩
      show ((s.spawned.modify j _).modify j _)[i]? = _
      rw [List.getElem?_modify_ne _ _ hij, List.getElem?_modify_ne _ _ hij, ha]

def Alive (setup : Setup) (s : State ε) : Prop :=
  s.completion = none → s.bootPending = false ∧ RootAsked setup s

theorem alive_onReply {j : ℕ} {b : AgentActor} {msg : ActorMessage} {reply : Reply ε}
    (hmode : setup.terminationMode = .coordinator) (h : Alive setup s)
    (hb : s.spawned[j]? = some b) (hcalling : b.phase = .calling msg)
    (hanswers : RootAnswers setup s (.reply j reply)) :
    Alive setup (s.onReply setup j b.actorId msg reply) := by
  -- a state whose completion is still open, in which the actor `j` has moved on
  have hmoved : ∀ (t : State ε) (phase : Phase), Posts s t → t.bootPending = false →
      s.completion = none → b.actorId ≠ setup.agentName ∨ msg.sender ≠ "system" →
      t.bootPending = false ∧ RootAsked setup ((t.markIdle).setPhase j phase) := by
    intro t phase hposts hboot hnone hother
    obtain ⟨i, a, ha, hroot, hasked⟩ := (h hnone).2
    obtain ⟨new, ha', -⟩ := hposts.actor i a ha
    refine ⟨hboot, RootAsked.setActor ha' hroot (hasked.append new) ?_ rfl⟩
    rintro rfl
    rw [ha, Option.some.injEq] at hb
    subst hb
    rw [AgentActor.IsAsked, hcalling] at hasked
    exact hother.elim (fun hne => hne hroot) fun hne => hne hasked
  by_cases hmine : b.actorId = setup.agentName ∧ msg.sender = "system"
  · obtain ⟨hroot, hsystem⟩ := hmine
    have hid : (s.spawned[j]?).map AgentActor.actorId = some setup.agentName := by
      rw [hb]
      exact congrArg some hroot
    intro hopen
    cases reply with
    | cancelled => exact (hanswers hmode hopen hid).elim
    | error exc =>
      rw [onReply_error] at hopen
      cases hopen
    | text content =>
      obtain ⟨hempty, heq⟩ | ⟨-, t, hsent, heq⟩ := onReply_text setup s j b msg content
      · rw [heq] at hopen
        exact absurd hempty (hanswers hmode hopen hid)
      · rw [heq] at hopen
        have ht : t.completion = none := hopen
        cases hc : s.completion with
        | some c =>
          rw [hsent.kept c hc] at ht
          cases ht
        | none =>
          by_cases hover : setup.maxLoop ≤ s.messageCount
          · rw [(hsent.refused hover).2 hc] at ht
            cases ht
          · refine absurd ht (hsent.answers (Nat.lt_of_not_le hover) (h hc).1 ?_ hroot)
            rw [hsystem]
            rfl
  · rw [not_and_or] at hmine
    intro hopen
    cases reply with
    | cancelled => exact hmoved s .stopped (.refl s) (h hopen).1 hopen hmine
    | error exc =>
      rw [onReply_error] at hopen
      cases hopen
    | text content =>
      obtain ⟨-, heq⟩ | ⟨-, t, hsent, heq⟩ := onReply_text setup s j b msg content
      · rw [heq] at hopen ⊢
        exact hmoved s .waiting (.refl s) (h hopen).1 hopen hmine
      · rw [heq] at hopen ⊢
        have ht : t.completion = none := hopen
        have hnone : s.completion = none := by
          cases hc : s.completion with
          | none => rfl
          | some c =>
            rw [hsent.kept c hc] at ht
            cases ht
        exact hmoved t .waiting hsent.posts (hsent.booted (.inr (h hnone).1)) hnone hmine

theorem alive_step (hmode : setup.terminationMode = .coordinator) (h : Alive setup s)
    (hanswers : RootAnswers setup s e) (hs : step setup casing s e = some s') :
    Alive setup s' := by
  obtain ⟨i, id, msg, rest, -, ha, rfl⟩ | ⟨i, a, msg, reply, rfl, ha, hcalling, rfl⟩ |
    ⟨-, hquiescence, -⟩ | ⟨completion, -, hcompletion, -, rfl⟩ := step_cases hs
  · intro hopen
    obtain ⟨hcompletion, -, hboot⟩ := onReceive_frame casing s i msg rest
    obtain ⟨hbooted, hasked⟩ := h (hcompletion.symm.trans hopen)
    exact ⟨hboot.trans hbooted, rootAsked_onReceive hasked ha⟩
  · exact alive_onReply hmode h ha hcalling hanswers
  · rw [hmode] at hquiescence
    cases hquiescence
  · intro hopen
    rw [show s.completion = none from hopen] at hcompletion
    cases hcompletion

theorem Alive.not_quiet (h : Alive setup s) (hopen : s.completion = none) : ¬s.Quiet := by
  intro hquiet
  obtain ⟨i, a, ha, -, hasked⟩ := (h hopen).2
  obtain ⟨hinbox, hidle⟩ := hquiet a (List.mem_of_getElem? ha)
  obtain ⟨id, inbox, phase⟩ := a
  cases phase with
  | waiting =>
    obtain ⟨msg, rest, hne, -⟩ := hasked
    rw [show inbox = [] from hinbox] at hne
    cases hne
  | calling msg => cases hidle
  | stopped => exact hasked

end Root

/-! ### The boot message -/

section Boot

variable {ε : Type*} {setup : Setup} {s : State ε}

structure Unstarted (setup : Setup) (s : State ε) : Prop where
  coherent : Coherent setup s
  idle : ∀ a ∈ s.spawned, a.inbox = [] ∧ a.phase = .waiting
  nodup : (s.actors.map Prod.fst).Nodup
  completion : s.completion = none
  messageCount : s.messageCount = 0

theorem unstarted_fresh : Unstarted setup (State.fresh : State ε) :=
  ⟨⟨rfl, nofun, nofun, (Nat.zero_min _).symm⟩, nofun, List.nodup_nil, rfl, rfl⟩

theorem Unstarted.spawn (h : Unstarted setup s) (id : String) :
    Unstarted setup (s.spawn id) := by
  have hold : ∀ {i : ℕ} {a : AgentActor}, s.spawned[i]? = some a →
      (s.spawned ++ [⟨id, [], .waiting⟩])[i]? = some a := fun hi => by
    rw [List.getElem?_append_left (List.getElem?_eq_some_iff.mp hi).1, hi]
  have hidle : ∀ a ∈ s.spawned ++ [⟨id, [], .waiting⟩], a.inbox = [] ∧ a.phase = .waiting := by
    rw [List.forall_mem_append, List.forall_mem_singleton]
    exact ⟨h.idle, rfl, rfl⟩
  refine ⟨⟨?_, fun id' i hentry => ?_, fun i a ha hne => ?_, h.coherent.routed⟩, hidle,
    nodup_map_key_upsert h.nodup, h.completion, h.messageCount⟩
  · show s.busyActors = ((s.spawned ++ [_]).countP AgentActor.isBusy : ℕ)
    rw [List.countP_append, h.coherent.busy]
    rfl
  · rcases mem_upsert.mp hentry with hnew | ⟨hentry, -⟩
    · obtain ⟨rfl, rfl⟩ := Prod.mk.inj hnew
      exact ⟨⟨id', [], .waiting⟩, List.getElem?_concat_length, rfl⟩
    · obtain ⟨a, ha, hid⟩ := h.coherent.entries id' i hentry
      exact ⟨a, hold ha, hid⟩
  · exact absurd (hidle a (List.mem_of_getElem? ha)).1 hne

theorem Unstarted.foldl_spawn (h : Unstarted setup s) (ids : List String) :
    Unstarted setup (ids.foldl State.spawn s) := by
  induction ids generalizing s with
  | nil => exact h
  | cons id ids ih => exact ih (h.spawn id)

theorem asked_boot (setup : Setup) (hunder : 0 < setup.maxLoop) :
    RootAsked setup (boot setup : State ε) := by
  have hstarted : Unstarted setup (setup.includeActors.foldl State.spawn (State.fresh : State ε)) :=
    unstarted_fresh.foldl_spawn _
  unfold boot
  generalize setup.includeActors.foldl State.spawn (State.fresh : State ε) = s at hstarted
  have hspawned := hstarted.spawn setup.agentName
  have hroot : (s.spawn setup.agentName).spawned[s.spawned.length]? =
      some ⟨setup.agentName, [], .waiting⟩ := List.getElem?_concat_length
  have hentry : (setup.agentName, s.spawned.length) ∈ (s.spawn setup.agentName).actors :=
    mem_upsert_self
  have hlookup : (s.spawn setup.agentName).actors.lookup setup.agentName =
      some s.spawned.length := by
    rw [lookup_eq_find?, State.spawn, find?_upsert, if_pos rfl]
    rfl
  generalize hs' : s.spawn setup.agentName = s' at hspawned hroot hentry hlookup
  have hcount : ¬s'.messageCount + 1 > setup.maxLoop := by
    rw [hspawned.messageCount]
    exact Nat.not_lt_of_le hunder
  refine ⟨s.spawned.length, ?_⟩
  simp only [State.send, State.deliver, if_neg hcount, Bool.not_true, Bool.false_and,
    Bool.false_eq_true, if_false]
  unfold State.route
  cases setup.topology with
  | pointToPoint =>
    simp only [hlookup]
    refine ⟨_, getElem?_put hroot, rfl, ?_⟩
    rw [if_pos rfl]
    exact ⟨_, _, rfl, rfl, rfl⟩
  | broadcast =>
    refine ⟨_, getElem?_foldl_put hroot, rfl, ?_⟩
    refine isAsked_of_waiting rfl ?_ fun msg hmsg => ?_
    · intro hnil
      have hmine := List.eq_nil_of_map_eq_nil (List.append_eq_nil_iff.mp hnil).2
      rw [List.filter_eq_nil_iff] at hmine
      refine absurd (decide_eq_true rfl) (hmine (setup.agentName, s.spawned.length) ?_)
      exact List.mem_filter.mpr ⟨hentry, Bool.or_true _⟩
    · obtain ⟨entry, -, rfl⟩ := List.mem_map.mp hmsg
      exact ⟨rfl, rfl⟩

theorem sent_boot (setup : Setup) : ∃ s : State ε, Unstarted setup s ∧
    Sent setup "system" setup.agentName setup.message { s with bootPending := true } (boot setup) :=
  ⟨_, (unstarted_fresh.foldl_spawn _).spawn _, sent_send⟩

theorem coherent_boot (setup : Setup) : Coherent setup (boot setup : State ε) := by
  obtain ⟨s, hs, hsent⟩ := sent_boot (ε := ε) setup
  have hcoherent : Coherent setup { s with bootPending := true } :=
    ⟨hs.coherent.busy, hs.coherent.entries, hs.coherent.reachable, hs.coherent.routed⟩
  exact hcoherent.sent hsent

theorem completion_boot (setup : Setup) :
    (boot setup : State ε).completion =
      if setup.maxLoop = 0 then some (.result (limitNotice setup.maxLoop)) else none := by
  obtain ⟨s, hs, hsent⟩ := sent_boot (ε := ε) setup
  split
  · next hzero => exact (hsent.refused (hzero.trans_le (Nat.zero_le _))).2 hs.completion
  · next hne =>
    have hunder : ({ s with bootPending := true } : State ε).messageCount < setup.maxLoop :=
      hs.messageCount.trans_lt (Nat.pos_of_ne_zero hne)
    cases hc : (boot setup : State ε).completion with
    | none => rfl
    | some c => cases (hsent.answered hunder hs.completion c hc).2.1

theorem alive_boot (setup : Setup) : Alive setup (boot setup : State ε) := by
  intro hopen
  rw [completion_boot] at hopen
  split at hopen
  · cases hopen
  · next hne =>
    have hunder := Nat.pos_of_ne_zero hne
    obtain ⟨s, hs, hsent⟩ := sent_boot (ε := ε) setup
    exact ⟨hsent.booted (.inl (hs.messageCount.trans_lt hunder)), asked_boot setup hunder⟩

end Boot

/-! ### Runs -/

structure FinishesRightly {ε : Type*} (setup : Setup) (trace : List (Transition ε)) (s : State ε) :
    Prop where
  routed : (s.spans.filter MessageSpan.isRouted).length ≤ setup.maxLoop
  refused : ∀ t ∈ trace, setup.maxLoop ≤ t.before.messageCount →
    t.after.messageCount ≠ t.before.messageCount → Refuses setup t.before t.after
  first : ∀ t ∈ trace, ∀ c, t.before.completion = some c → t.after.completion = some c
  /-- A coordinator's run is completed by the root, by an error or by the notice. -/
  booted : ∀ c, (boot setup : State ε).completion = some c →
    c = .result (limitNotice setup.maxLoop)
  coordinated : setup.terminationMode = .coordinator → ∀ t ∈ trace, t.before.completion = none →
    ∀ c, t.after.completion = some c → Completes setup t.before t.event c
  quiescent : ∀ t ∈ trace, t.event = .poll → t.after.completion ≠ t.before.completion →
    t.before.Quiet
  live : setup.terminationMode = .coordinator → s.completion = none → ¬s.Quiet

section Runs

variable {ε : Type*} {setup : Setup} {casing : Casing} {trace : List (Transition ε)} {s : State ε}

theorem Run.coherent (h : Run setup casing trace s) :
    Coherent setup s ∧ ∀ t ∈ trace, Coherent setup t.before := by
  induction h with
  | boot => exact ⟨coherent_boot setup, fun t ht => absurd ht List.not_mem_nil⟩
  | next h hstep ih =>
    rw [List.forall_mem_append, List.forall_mem_singleton]
    exact ⟨ih.1.step hstep, ih.2, ih.1⟩

theorem Run.alive (h : Run setup casing trace s) (hmode : setup.terminationMode = .coordinator)
    (hanswers : ∀ t ∈ trace, RootAnswers setup t.before t.event) : Alive setup s := by
  induction h with
  | boot => exact alive_boot setup
  | next h hstep ih =>
    rw [List.forall_mem_append, List.forall_mem_singleton] at hanswers
    exact alive_step hmode (ih hanswers.1) hanswers.2 hstep

theorem Run.forall_step (h : Run setup casing trace s) {P : Transition ε → Prop}
    (hP : ∀ (s : State ε) (e : Event ε) (s' : State ε), step setup casing s e = some s' →
      P ⟨s, e, s'⟩) : ∀ t ∈ trace, P t := by
  induction h with
  | boot => exact fun t ht => absurd ht List.not_mem_nil
  | next h hstep ih =>
    rw [List.forall_mem_append, List.forall_mem_singleton]
    exact ⟨ih, hP _ _ _ hstep⟩

/-- **Actor runs finish rightly.** In every run in which the root's model call for the prompt does
not give the empty text, and is not cancelled. -/
theorem finishes_rightly (h : Run setup casing trace s)
    (hanswers : ∀ t ∈ trace, RootAnswers setup t.before t.event) :
    FinishesRightly setup trace s := by
  obtain ⟨hcoherent, hbefore⟩ := h.coherent
  refine ⟨?_, h.forall_step fun s e s' hstep hover hcount => refuses_of_step hover hstep hcount,
    h.forall_step fun s e s' hstep c hc => completion_kept hc hstep, fun c hc => ?_,
    fun hmode => h.forall_step fun s e s' hstep hnone c hc => completes_of_step hmode hnone hstep hc,
    ?_, fun hmode hopen => (h.alive hmode hanswers).not_quiet hopen⟩
  · rw [hcoherent.routed]
    exact Nat.min_le_right _ _
  · rw [completion_boot] at hc
    split at hc
    · exact (Option.some.inj hc).symm
    · cases hc
  · have hpolls := h.forall_step (P := fun t => t.event = .poll →
      t.after.completion ≠ t.before.completion → t.before.checkQuiescence = true)
      fun s e s' hstep hpoll hset => ?_
    · exact fun t ht hpoll hset => (hbefore t ht).quiet (hpolls t ht hpoll hset)
    · simp only at hpoll hset ⊢
      subst hpoll
      simp only [step, Option.ite_none_right_eq_some, Option.some.injEq] at hstep
      obtain ⟨-, rfl⟩ := hstep
      by_contra hbusy
      rw [if_neg hbusy] at hset
      exact hset rfl

end Runs

/-! ### A root that gives the empty text -/

/-- A root on its own, with room for the prompt and the answer. -/
def rootOnly : Setup := ⟨.pointToPoint, .coordinator, "root", 2, [], "q"⟩

theorem finishes_rightly_rootOnly : ∃ trace, ∃ s : State String, Run rootOnly asciiCasing trace s ∧
    FinishesRightly rootOnly trace s ∧ s.completion = some (.result "ANSWER") := by
  have hasked : Run rootOnly asciiCasing _ _ := Run.next (.boot (ε := String)) (e := .receive 0) rfl
  have hrun := hasked.next (e := .reply 0 (.text "ANSWER")) rfl
  refine ⟨_, _, hrun, finishes_rightly hrun ?_, rfl⟩
  refine List.forall_mem_cons.mpr ⟨trivial, List.forall_mem_singleton.mpr fun _ _ _ => ?_⟩
  decide

/-- The empty text is sent to nobody, and nobody will ever complete the run. -/
theorem waits_forever : ¬∀ (trace : List (Transition String)) (s : State String),
    Run rootOnly asciiCasing trace s → FinishesRightly rootOnly trace s := by
  intro h
  have hasked : Run rootOnly asciiCasing _ _ := Run.next (.boot (ε := String)) (e := .receive 0) rfl
  have hrun := hasked.next (e := .reply 0 (.text "")) rfl
  refine (h _ _ hrun).live rfl rfl fun a ha => ?_
  obtain rfl := List.mem_singleton.mp ha
  exact ⟨rfl, rfl⟩

end VidbyteSdk.Agents.Actor
