import VidbyteSdk.Providers.ThinkingRuns

/-!
# Stale thinking is removed, and no more

In every run that fits the record a removal takes the oldest stale block, the blocks after it and those removed
before. What was removed stays out until an answer brings it again. A conversation that only grows keeps its
blocks, as long as no other request takes them.
-/

namespace VidbyteSdk.Providers.Thinking

open VidbyteSdk.Lib Json

variable {sha256 : Text → Digest}

/-! ### Calls in a run -/

theorem Few.of_append {ops more : List Op} (h : Few sha256 (ops ++ more)) : Few sha256 ops := by
  unfold Few seenKeys at *
  rw [List.flatMap_append] at h
  refine Nat.lt_of_le_of_lt ?_ h
  refine (List.subperm_of_subset (List.nodup_dedup _) fun key hkey => ?_).length_le
  exact List.mem_dedup.mpr (List.mem_append_left _ (List.mem_dedup.mp hkey))

section Run

variable (hinj : Function.Injective sha256) (hne : ∀ text, sha256 text ≠ removedMark) {ops : List Op}
  (hfew : Few sha256 ops)
include hinj hne hfew

theorem agrees_of_few : Agrees sha256 (bindings sha256 ops) (fates sha256 ops) :=
  (agrees_run hinj hne (fun _ hkey => hkey) (Nat.le_of_lt hfew)).1

theorem kept_run (request : Payload (List Json)) :
    kept sha256 (bindings sha256 ops) request = (fates sha256 ops).kept sha256 request :=
  (agrees_of_few hinj hne hfew).kept hne hinj request

theorem gone_run (request : Payload (List Json)) :
    gone sha256 (bindings sha256 ops) request = (fates sha256 ops).gone sha256 request :=
  (agrees_of_few hinj hne hfew).gone hne hinj request

theorem thinking_strip_run (request : Payload (List Json)) :
    thinking (strip sha256 (bindings sha256 ops) request).1 = (fates sha256 ops).kept sha256 request := by
  rw [thinking_strip, kept_run hinj hne hfew]

end Run

variable {request : Payload (List Json)}

variable {block : ℕ × Json}

theorem Fates.isStale_of_mem_kept {fates : Fates}
    (h : block ∈ fates.kept sha256 request) : fates.isStale sha256 request block = false := by
  have htest := List.mem_takeWhile_imp (List.mem_filter.mp h).1
  simpa using htest

theorem Fates.isRemoved_of_mem_kept {fates : Fates}
    (h : block ∈ fates.kept sha256 request) : fates.isRemoved sha256 block = false := by
  have htest := (List.mem_filter.mp h).2
  simpa using htest

theorem Fates.gone_eq_nil {fates : Fates}
    (h : ∀ block ∈ thinking request, fates.isStale sha256 request block = false ∧
      fates.isRemoved sha256 block = false) : fates.gone sha256 request = [] := by
  unfold Fates.gone
  refine List.append_eq_nil_iff.mpr ⟨List.filter_eq_nil_iff.mpr fun block hblock => ?_, ?_⟩
  · rw [(h block ((List.takeWhile_sublist _).subset hblock)).2]
    decide
  · refine List.dropWhile_eq_nil_iff.mpr fun block hblock => ?_
    rw [(h block hblock).1]
    rfl

/-! ### What was removed stays out -/

theorem recordedKeys_concat (ops : List Op) (op : Op) :
    recordedKeys sha256 (ops ++ [op]) = recordedKeys sha256 ops ++ recordedKeys sha256 [op] := by
  unfold recordedKeys
  rw [List.flatMap_append]

theorem fates_removed {ops more : List Op} {key : Digest} (h : fates sha256 ops key = some .removed)
    (hmore : key ∉ recordedKeys sha256 more) : fates sha256 (ops ++ more) key = some .removed := by
  induction more using List.reverseRecOn with
  | nil => rwa [List.append_nil]
  | append_singleton more op ih =>
    rw [recordedKeys_concat, List.mem_append, not_or] at hmore
    rw [← List.append_assoc, fates_concat]
    cases op with
    | record request content =>
      have hkey : key ∉ answerKeys sha256 content := by
        have hlast := hmore.2
        unfold recordedKeys at hlast
        rwa [List.flatMap_singleton] at hlast
      show (if key ∈ answerKeys sha256 content then _ else _) = _
      rw [if_neg hkey]
      exact ih hmore.1
    | strip request =>
      simp only [Fates.step]
      split
      · rfl
      · exact ih hmore.1

theorem fates_of_gone {ops : List Op} {lost : ℕ × Json} {key : Digest}
    (hlost : lost ∈ (fates sha256 ops).gone sha256 request) (hkey : blockKey sha256 lost.2 = some key) :
    fates sha256 (ops ++ [.strip request]) key = some .removed := by
  rw [fates_concat]
  exact if_pos (List.mem_filterMap.mpr ⟨lost, hlost, hkey⟩)

theorem Fates.key_ne_of_mem_kept {fates : Fates}
    {key : Digest} (h : block ∈ fates.kept sha256 request) (hkey : fates key = some .removed) :
    blockKey sha256 block.2 ≠ some key := by
  intro hsame
  have hremoved := Fates.isRemoved_of_mem_kept h
  unfold Fates.isRemoved Fates.of at hremoved
  rw [hsame, Option.bind_some, hkey] at hremoved
  exact absurd hremoved (by decide)

/-! ### Stripping again -/

def Apart (sha256 : Text → Digest) (fates : Fates) (request : Payload (List Json)) : Prop :=
  ∀ stays ∈ fates.kept sha256 request, ∀ lost ∈ fates.gone sha256 request, ∀ key,
    blockKey sha256 stays.2 = some key → blockKey sha256 lost.2 ≠ some key

theorem Fates.of_step_strip {fates : Fates} (hapart : Apart sha256 fates request)
    (hblock : block ∈ fates.kept sha256 request) :
    (fates.step sha256 (.strip request)).of sha256 block = fates.of sha256 block := by
  unfold Fates.of
  cases hkey : blockKey sha256 block.2 with
  | none => rfl
  | some key =>
    refine if_neg fun hmem => ?_
    obtain ⟨lost, hlost, hlostKey⟩ := List.mem_filterMap.mp hmem
    exact hapart block hblock lost hlost key hkey hlostKey

theorem gone_again {fates : Fates} {request after : Payload (List Json)}
    (hthinking : thinking after = fates.kept sha256 request) (hfront : prefixTexts after = prefixTexts request) :
    (fates.step sha256 (.strip request)).gone sha256 after = [] ↔ Apart sha256 fates request := by
  constructor
  · intro hnone stays hstays lost hlost key hkey hlostKey
    have hfate : (fates.step sha256 (.strip request)).of sha256 stays = some .removed := by
      unfold Fates.of
      rw [hkey]
      exact if_pos (List.mem_filterMap.mpr ⟨lost, hlost, hlostKey⟩)
    have hremoved : (fates.step sha256 (.strip request)).isRemoved sha256 stays = true := by
      unfold Fates.isRemoved
      rw [hfate]
      decide
    obtain ⟨hbefore, hfrom⟩ := List.append_eq_nil_iff.mp hnone
    have hstays' : stays ∈ thinking after := by rw [hthinking]; exact hstays
    have hall := List.dropWhile_eq_nil_iff.mp hfrom
    have htake : stays ∈ (thinking after).takeWhile
        fun block => !(fates.step sha256 (.strip request)).isStale sha256 after block := by
      rw [List.takeWhile_eq_self_iff.mpr hall]
      exact hstays'
    exact List.filter_eq_nil_iff.mp hbefore stays htake hremoved
  · intro hapart
    refine Fates.gone_eq_nil fun block hblock => ?_
    rw [hthinking] at hblock
    have hfate := Fates.of_step_strip hapart hblock
    refine ⟨?_, ?_⟩
    · have hstale := Fates.isStale_of_mem_kept hblock
      unfold Fates.isStale at hstale ⊢
      rw [hfate, hfront]
      exact hstale
    · have hremoved := Fates.isRemoved_of_mem_kept hblock
      unfold Fates.isRemoved at hremoved ⊢
      rw [hfate]
      exact hremoved

/-! ### A conversation that only grows -/

def Payload.grow (request : Payload (List Json)) (turns : List (Message (List Json))) : Payload (List Json) :=
  { request with messages := request.messages.map (· ++ turns) }

/-- A conversation in a run: it starts without thinking blocks; each of its requests is the whole conversation; an
answer is recorded with its request and comes in as the next turn, and other turns bring no thinking blocks. The
process serves other conversations in between. No signature comes in two answers, and no other request takes a
block of this conversation. -/
inductive Conversation (sha256 : Text → Digest) : List Op → Payload (List Json) → Prop where
  | start (ops : List Op) {request : Payload (List Json)} (hlist : request.messages.isSome = true)
    (hnone : thinking request = []) : Conversation sha256 ops request
  | ask {ops : List Op} {request : Payload (List Json)} (h : Conversation sha256 ops request) :
    Conversation sha256 (ops ++ [.strip request]) request
  | answer {ops : List Op} {request : Payload (List Json)} (h : Conversation sha256 ops request)
    (content : List Json) (hfresh : ∀ key ∈ answerKeys sha256 (some content), key ∉ recordedKeys sha256 ops)
    (fields : List (Text × Json)) :
    Conversation sha256 (ops ++ [.record request (some content)])
      (request.grow [.dict fields (some (.list content))])
  | turns {ops : List Op} {request : Payload (List Json)} (h : Conversation sha256 ops request)
    (turns : List (Message (List Json))) (hturns : ∀ turn ∈ turns, turn.blocks.filter isBound = []) :
    Conversation sha256 ops (request.grow turns)
  | recordElsewhere {ops : List Op} {request : Payload (List Json)} (h : Conversation sha256 ops request)
    (other : Payload (List Json)) (content : Option (List Json))
    (hfresh : ∀ key ∈ answerKeys sha256 content, key ∉ recordedKeys sha256 ops) :
    Conversation sha256 (ops ++ [.record other content]) request
  | stripElsewhere {ops : List Op} {request : Payload (List Json)} (h : Conversation sha256 ops request)
    (other : Payload (List Json))
    (hother : ∀ lost ∈ (fates sha256 ops).gone sha256 other, ∀ mine ∈ thinking request, ∀ key,
      blockKey sha256 mine.2 = some key → blockKey sha256 lost.2 ≠ some key) :
    Conversation sha256 (ops ++ [.strip other]) request

/-- A block of a conversation is recorded under the prefix in front of it. -/
def RightlySigned (sha256 : Text → Digest) (ops : List Op) (request : Payload (List Json)) : Prop :=
  ∀ block ∈ thinking request, ∀ key, blockKey sha256 block.2 = some key → key ∈ recordedKeys sha256 ops ∧
    ∃ before, fates sha256 ops key = some (.signed before) ∧ (prefixTexts request)[block.1]? = some before

theorem RightlySigned.gone_eq_nil {ops : List Op}
    (h : RightlySigned sha256 ops request) : (fates sha256 ops).gone sha256 request = [] := by
  refine Fates.gone_eq_nil fun block hblock => ?_
  unfold Fates.isStale Fates.isRemoved Fates.of
  cases hkey : blockKey sha256 block.2 with
  | none => exact ⟨rfl, rfl⟩
  | some key =>
    obtain ⟨-, before, hfate, hfront⟩ := h block hblock key hkey
    rw [Option.bind_some, hfate]
    refine ⟨?_, decide_eq_false fun h => nomatch h⟩
    simp [hfront]

theorem thinking_grow {messages : List (Message (List Json))}
    (hmessages : request.messages = some messages) (turns : List (Message (List Json))) :
    thinking (request.grow turns) = thinking request ++ (turns.zipIdx messages.length).flatMap fun message =>
      (message.1.blocks.filter isBound).map fun block => (message.2, block) := by
  unfold thinking Payload.grow
  rw [hmessages]
  show (messages ++ turns).zipIdx.flatMap _ = messages.zipIdx.flatMap _ ++ _
  rw [List.zipIdx_append, List.flatMap_append, Nat.zero_add]

theorem getElem?_prefixTexts_grow {messages : List (Message (List Json))}
    (hmessages : request.messages = some messages) (turns : List (Message (List Json))) {index : ℕ}
    (hle : index ≤ messages.length) :
    (prefixTexts (request.grow turns))[index]? = (prefixTexts request)[index]? := by
  unfold prefixTexts Payload.grow
  rw [hmessages]
  show (runningTexts (openingText request) (messages ++ turns))[index]? =
    (runningTexts (openingText request) messages)[index]?
  rw [getElem?_runningTexts, getElem?_runningTexts, if_pos hle, List.take_append_of_le_length hle, if_pos]
  rw [List.length_append]
  exact Nat.le_add_right_of_le hle

theorem getElem?_prefixTexts_whole {messages : List (Message (List Json))}
    (hmessages : request.messages = some messages) :
    (prefixTexts request)[messages.length]? = some (wholeText request) := by
  unfold prefixTexts wholeText
  rw [hmessages]
  show (runningTexts (openingText request) messages)[messages.length]? = _
  rw [getElem?_runningTexts, if_pos (Nat.le_refl _), List.take_length]
  rfl

theorem index_lt_of_mem_thinking {messages : List (Message (List Json))}
    (hmessages : request.messages = some messages) (h : block ∈ thinking request) :
    block.1 < messages.length := by
  unfold thinking at h
  rw [hmessages, Option.getD_some] at h
  obtain ⟨message, hmessage, hblock⟩ := List.mem_flatMap.mp h
  obtain ⟨_, -, rfl⟩ := List.mem_map.mp hblock
  exact (List.getElem?_eq_some_iff.mp (List.mem_zipIdx_iff_getElem?.mp hmessage)).1

theorem RightlySigned.grow {ops : List Op}
    {messages : List (Message (List Json))} (h : RightlySigned sha256 ops request)
    (hmessages : request.messages = some messages) (turns : List (Message (List Json)))
    (hturns : ∀ message ∈ turns.zipIdx messages.length, ∀ block ∈ message.1.blocks, isBound block = true →
      ∀ key, blockKey sha256 block = some key → key ∈ recordedKeys sha256 ops ∧ ∃ before,
        fates sha256 ops key = some (.signed before) ∧
          (prefixTexts (request.grow turns))[message.2]? = some before) :
    RightlySigned sha256 ops (request.grow turns) := by
  intro block hblock key hkey
  rw [thinking_grow hmessages] at hblock
  obtain hblock | hblock := List.mem_append.mp hblock
  · obtain ⟨hrecorded, before, hfate, hfront⟩ := h block hblock key hkey
    refine ⟨hrecorded, before, hfate, ?_⟩
    rw [getElem?_prefixTexts_grow hmessages turns (Nat.le_of_lt (index_lt_of_mem_thinking hmessages hblock))]
    exact hfront
  · obtain ⟨message, hmessage, hin⟩ := List.mem_flatMap.mp hblock
    obtain ⟨bound, hbound, rfl⟩ := List.mem_map.mp hin
    obtain ⟨hmem, hisBound⟩ := List.mem_filter.mp hbound
    exact hturns message hmessage bound hmem hisBound key hkey

theorem RightlySigned.step {ops : List Op} (h : RightlySigned sha256 ops request)
    (op : Op) (hop : ∀ block ∈ thinking request, ∀ key, blockKey sha256 block.2 = some key →
      fates sha256 (ops ++ [op]) key = fates sha256 ops key) : RightlySigned sha256 (ops ++ [op]) request := by
  intro block hblock key hkey
  obtain ⟨hrecorded, before, hfate, hfront⟩ := h block hblock key hkey
  rw [recordedKeys_concat, hop block hblock key hkey]
  exact ⟨List.mem_append_left _ hrecorded, before, hfate, hfront⟩

theorem RightlySigned.record {ops : List Op}
    (h : RightlySigned sha256 ops request) (other : Payload (List Json)) {content : Option (List Json)}
    (hfresh : ∀ key ∈ answerKeys sha256 content, key ∉ recordedKeys sha256 ops) :
    RightlySigned sha256 (ops ++ [.record other content]) request := by
  refine h.step _ fun block hblock key hkey => ?_
  rw [fates_concat]
  exact if_neg fun hmem => hfresh key hmem (h block hblock key hkey).1

theorem RightlySigned.strip {ops : List Op}
    (h : RightlySigned sha256 ops request) (other : Payload (List Json))
    (hother : ∀ lost ∈ (fates sha256 ops).gone sha256 other, ∀ mine ∈ thinking request, ∀ key,
      blockKey sha256 mine.2 = some key → blockKey sha256 lost.2 ≠ some key) :
    RightlySigned sha256 (ops ++ [.strip other]) request := by
  refine h.step _ fun block hblock key hkey => ?_
  rw [fates_concat]
  refine if_neg fun hmem => ?_
  obtain ⟨lost, hlost, hlostKey⟩ := List.mem_filterMap.mp hmem
  exact hother lost hlost block hblock key hkey hlostKey

theorem Conversation.rightlySigned {ops : List Op}
    (h : Conversation sha256 ops request) :
    request.messages.isSome = true ∧ RightlySigned sha256 ops request := by
  induction h with
  | start ops hlist hnone =>
    refine ⟨hlist, fun block hblock => ?_⟩
    rw [hnone] at hblock
    exact absurd hblock List.not_mem_nil
  | ask h ih =>
    refine ⟨ih.1, ih.2.strip _ fun lost hlost => ?_⟩
    rw [ih.2.gone_eq_nil] at hlost
    exact absurd hlost List.not_mem_nil
  | @answer ops request h content hfresh fields ih =>
    obtain ⟨messages, hmessages⟩ := Option.isSome_iff_exists.mp ih.1
    refine ⟨by simp [Payload.grow, hmessages], (ih.2.record request hfresh).grow hmessages _ ?_⟩
    intro message hmessage block hblock hbound key hkey
    obtain rfl := List.mem_singleton.mp hmessage
    have hanswer : key ∈ answerKeys sha256 (some content) := List.mem_filterMap.mpr ⟨block, hblock, hkey⟩
    refine ⟨?_, wholeText request, ?_, ?_⟩
    · rw [recordedKeys_concat]
      refine List.mem_append_right _ ?_
      unfold recordedKeys
      rwa [List.flatMap_singleton]
    · rw [fates_concat]
      exact if_pos hanswer
    · rw [getElem?_prefixTexts_grow hmessages _ (Nat.le_refl _), getElem?_prefixTexts_whole hmessages]
  | @turns ops request h turns hturns ih =>
    obtain ⟨messages, hmessages⟩ := Option.isSome_iff_exists.mp ih.1
    refine ⟨by simp [Payload.grow, hmessages], ih.2.grow hmessages turns ?_⟩
    intro message hmessage block hblock hbound
    have hnone := hturns message.1 (List.fst_mem_of_mem_zipIdx hmessage)
    exact absurd hbound (List.filter_eq_nil_iff.mp hnone block hblock)
  | recordElsewhere h other content hfresh ih => exact ⟨ih.1, ih.2.record other hfresh⟩
  | stripElsewhere h other hother ih => exact ⟨ih.1, ih.2.strip other hother⟩

/-! ### The guard -/

theorem stripStale_of_nil {signed : Signed} {store : Store} {payload : Payload ℕ}
    (h : removedOf sha256 signed (view store payload) = []) :
    stripStale sha256 store signed payload = (0, store, payload, signed) := by
  unfold stripStale
  cases hmessages : payload.messages with
  | none => rfl
  | some messages => exact if_pos h

theorem view_append {store : Store} (more : Store) {payload : Payload ℕ}
    (h : InStore store (payload.messages.getD [])) : view (store ++ more) payload = view store payload := by
  unfold view Payload.map
  cases hmessages : payload.messages with
  | none => rfl
  | some messages =>
    rw [hmessages, Option.getD_some] at h
    simp only [Option.map_some, map_read_append more h]

/-- In every run that names fewer keyed blocks than the record holds: `strip_stale` leaves the thinking blocks in
front of the oldest stale one, less those that were removed before, and everything else, in order; it writes no
list that there was and moves no prefix; and it takes nothing more from what it leaves, if and only if no block that
stays has the key of one that goes. A block that was removed stays out until an answer brings its signature. A
conversation that only grows loses no block. -/
theorem strip_stale_minimal (sha256 : Text → Digest) (hinj : Function.Injective sha256)
    (hne : ∀ text, sha256 text ≠ removedMark) :
    (∀ ops store (payload : Payload ℕ), InStore store (payload.messages.getD []) →
      Few sha256 (ops ++ [.strip (view store payload)]) →
      ∃ count more after,
        stripStale sha256 store (bindings sha256 ops) payload =
          (count, store ++ more, after, bindings sha256 (ops ++ [.strip (view store payload)])) ∧
        view (store ++ more) payload = view store payload ∧
        thinking (view (store ++ more) after) = (fates sha256 ops).kept sha256 (view store payload) ∧
        (∀ block ∈ thinking (view (store ++ more) after),
          (fates sha256 ops).isStale sha256 (view (store ++ more) after) block = false) ∧
        (view (store ++ more) after).map others = (view store payload).map others ∧
        List.Forall₂ (fun after before => after.blocks.Sublist before.blocks)
          ((view (store ++ more) after).messages.getD []) ((view store payload).messages.getD []) ∧
        prefixTexts (view (store ++ more) after) = prefixTexts (view store payload) ∧
        (stripStale sha256 (store ++ more) (bindings sha256 (ops ++ [.strip (view store payload)])) after =
            (0, store ++ more, after, bindings sha256 (ops ++ [.strip (view store payload)])) ↔
          Apart sha256 (fates sha256 ops) (view store payload))) ∧
    (∀ ops earlier more request, Few sha256 (ops ++ .strip earlier :: more) →
      ∀ lost ∈ (fates sha256 ops).gone sha256 earlier, ∀ key, blockKey sha256 lost.2 = some key →
        key ∉ recordedKeys sha256 more →
          ∀ block ∈ thinking (strip sha256 (bindings sha256 (ops ++ .strip earlier :: more)) request).1,
            blockKey sha256 block.2 ≠ some key) ∧
    ∀ ops request, Conversation sha256 ops request → Few sha256 ops →
      strip sha256 (bindings sha256 ops) request = (request, bindings sha256 ops) := by
  refine ⟨?_, ?_, ?_⟩
  · intro ops store payload hstore hfew
    have hbefore : Few sha256 ops := hfew.of_append
    obtain ⟨count, more, after, signed, hstrip, -, hin, hview⟩ :=
      @stripStale_spec sha256 (bindings sha256 ops) _ _ hstore
    have hafter : view (store ++ more) after = (strip sha256 (bindings sha256 ops) (view store payload)).1 :=
      congrArg Prod.fst hview
    have hsigned : signed = bindings sha256 (ops ++ [.strip (view store payload)]) := by
      rw [bindings_concat]
      exact congrArg Prod.snd hview
    have hthinking : thinking (view (store ++ more) after) =
        (fates sha256 ops).kept sha256 (view store payload) := by
      rw [hafter, thinking_strip_run hinj hne hbefore]
    have hfront : prefixTexts (view (store ++ more) after) = prefixTexts (view store payload) := by
      rw [hafter, prefixTexts_strip]
    subst hsigned
    refine ⟨count, more, after, hstrip, ?_, hthinking, ?_, ?_, ?_, hfront, ?_⟩
    · exact view_append more hstore
    · intro block hblock
      rw [hthinking] at hblock
      have hstale := Fates.isStale_of_mem_kept hblock
      unfold Fates.isStale at hstale ⊢
      rw [hfront]
      exact hstale
    · rw [hafter, map_others_strip]
    · rw [hafter]
      exact blocks_strip_sublist _ _
    · rw [← gone_again hthinking hfront, ← fates_concat, ← gone_run hinj hne hfew, ← removedOf_eq_nil_iff]
      refine ⟨fun hsame => ?_, stripStale_of_nil⟩
      obtain ⟨again, _, _, _, hagain, hcount, -, -⟩ := @stripStale_spec sha256
        (bindings sha256 (ops ++ [.strip (view store payload)])) _ _ hin
      rw [hagain] at hsame
      exact List.eq_nil_of_length_eq_zero (hcount.symm.trans (congrArg Prod.fst hsame))
  · intro ops earlier more request hfew lost hlost key hkey hmore block hblock
    have happend : ops ++ .strip earlier :: more = (ops ++ [.strip earlier]) ++ more := by simp
    rw [happend] at hfew hblock
    rw [thinking_strip_run hinj hne hfew] at hblock
    exact Fates.key_ne_of_mem_kept hblock (fates_removed (fates_of_gone hlost hkey) hmore)
  · intro ops request h hfew
    refine strip_of_nil (removedOf_eq_nil_iff.mpr ?_)
    rw [gone_run hinj hne hfew]
    exact h.rightlySigned.2.gone_eq_nil

/-! ### Blocks that a key takes with it -/

/-- A hash that tells all texts apart: three bytes for each code point. -/
def spell (text : Text) : Digest :=
  ((0 :: text.flatMap fun c => [Fin.ofNat _ (c.val / 0x10000), Fin.ofNat _ (c.val / 0x100), Fin.ofNat _ c.val] :
    List Byte))

theorem spell_ne (text : Text) : spell text ≠ removedMark := List.cons_ne_nil _ _

theorem spell_injective : Function.Injective spell := by
  have hcode : ∀ c d : CodePoint, (Fin.ofNat 0x100 (c.val / 0x10000) = Fin.ofNat 0x100 (d.val / 0x10000)) →
      (Fin.ofNat 0x100 (c.val / 0x100) = Fin.ofNat 0x100 (d.val / 0x100)) →
      (Fin.ofNat 0x100 c.val = Fin.ofNat 0x100 d.val) → c = d := by
    intro c d hhigh hmiddle hlow
    have hhigh := congrArg Fin.val hhigh
    have hmiddle := congrArg Fin.val hmiddle
    have hlow := congrArg Fin.val hlow
    simp only [Fin.ofNat] at hhigh hmiddle hlow
    refine Fin.ext ?_
    omega
  intro first second hsame
  have htail := (List.cons.inj hsame).2
  clear hsame
  induction first generalizing second with
  | nil =>
    cases second with
    | nil => rfl
    | cons d second => cases htail
  | cons c first ih =>
    cases second with
    | nil => cases htail
    | cons d second =>
      obtain ⟨hhigh, hrest⟩ := List.cons.inj htail
      obtain ⟨hmiddle, hrest⟩ := List.cons.inj hrest
      obtain ⟨hlow, hrest⟩ := List.cons.inj hrest
      rw [hcode c d hhigh hmiddle hlow, ih hrest]

def thinkingBlock (signature : Text) : Json :=
  .obj [(typeKey, .str thinkingType), (signatureKey, .str signature)]

def userTurn : Message (List Json) := .dict [] (some (.other (.str (word ['h', 'i']))))

def assistantTurn (content : List Json) : Message (List Json) := .dict [] (some (.list content))

def question : Payload (List Json) := { system := .null, tools := .null, messages := some [userTurn] }

def noted : Json := thinkingBlock (word ['s'])

def answered : Payload (List Json) := question.grow [assistantTurn [noted]]

def forked : Payload (List Json) := { answered with system := .bool true }

def doubled : Payload (List Json) := answered.grow [userTurn, assistantTurn [noted]]

def late : Json := thinkingBlock (word ['l'])

/-- A history with the answer and with a block that no answer brought yet, under another system prompt. -/
def early : Payload (List Json) :=
  { question with system := .bool true, messages := some [userTurn, assistantTurn [noted, late]] }

def leftKeys (ops : List Op) (request : Payload (List Json)) : List (Option Digest) :=
  (thinking (strip spell (bindings spell ops) request).1).map fun block => blockKey spell block.2

/-- A removal takes a signature, wherever the block stands: the second copy of an answer goes, and the first one
when the request is stripped again; a conversation loses its block to a fork of it; and a signature that was
removed counts again once an answer brings it. -/
theorem strip_stale_by_signature :
    (leftKeys [.record question (some [noted])] doubled = [blockKey spell noted] ∧
      leftKeys [.record question (some [noted]), .strip doubled]
        (strip spell (bindings spell [.record question (some [noted])]) doubled).1 = []) ∧
    (Conversation spell [.strip question, .record question (some [noted])] answered ∧
      leftKeys [.strip question, .record question (some [noted])] answered = [blockKey spell noted] ∧
      leftKeys [.strip question, .record question (some [noted]), .strip forked] answered = []) ∧
    leftKeys [.record question (some [noted])] early = [] ∧
    leftKeys [.record question (some [noted]), .strip early, .record answered (some [late])]
      (answered.grow [assistantTurn [late]]) = [blockKey spell late] := by
  have hconversation : Conversation spell [.strip question, .record question (some [noted])] answered :=
    Conversation.answer (Conversation.ask (Conversation.start [] rfl rfl)) [noted]
      (fun key _ hmem => absurd hmem List.not_mem_nil) []
  refine ⟨⟨?_, ?_⟩, ⟨hconversation, ?_, ?_⟩, ?_, ?_⟩ <;> decide +kernel

/-- The stand-in hash meets what is asked of one. -/
theorem strip_stale_minimal_spell :
    strip spell (bindings spell [.strip question, .record question (some [noted])]) answered =
      (answered, bindings spell [.strip question, .record question (some [noted])]) := by
  obtain ⟨-, -, hconversation⟩ := strip_stale_minimal spell spell_injective spell_ne
  refine hconversation _ _ ?_ ?_
  · exact Conversation.answer (Conversation.ask (Conversation.start [] rfl rfl)) [noted]
      (fun key _ hmem => absurd hmem List.not_mem_nil) []
  · unfold Few capacity
    decide +kernel

end VidbyteSdk.Providers.Thinking
