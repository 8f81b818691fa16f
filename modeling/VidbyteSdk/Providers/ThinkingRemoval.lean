import VidbyteSdk.Providers.ThinkingBindings
import Mathlib.Data.List.Sigma

/-!
# One removal

What `strip_stale` leaves of a request: the thinking blocks in front of the first changed one, less those that
were removed before, and everything else. No prefix moves, and no list of the caller's is written.
-/

namespace VidbyteSdk.Providers.Thinking

open VidbyteSdk.Lib Json

variable {sha256 : Text → Digest}

def Message.without (removed : List Located) (index : ℕ) (message : Message (List Json)) : Message (List Json) :=
  message.map (keptBlocks removed index)

def withoutFrom (removed : List Located) (index : ℕ) (messages : List (Message (List Json))) :
    List (Message (List Json)) :=
  (messages.zipIdx index).map fun message => message.1.without removed message.2

def removedOf (sha256 : Text → Digest) (signed : Signed) (request : Payload (List Json)) : List Located :=
  stale signed (locate sha256 (request.messages.getD [])) (digests sha256 request)

/-- `strip_stale` of the values of a payload. -/
def strip (sha256 : Text → Digest) (signed : Signed) (request : Payload (List Json)) :
    Payload (List Json) × Signed :=
  let removed := removedOf sha256 signed request
  if removed = [] then (request, signed)
  else
    ({ request with messages := request.messages.map (withoutFrom removed 0) }, markRemoved removed signed)

theorem strip_of_nil {signed : Signed} {request : Payload (List Json)}
    (h : removedOf sha256 signed request = []) : strip sha256 signed request = (request, signed) :=
  if_pos h

theorem strip_of_ne_nil {signed : Signed} {request : Payload (List Json)}
    (h : removedOf sha256 signed request ≠ []) :
    strip sha256 signed request =
      ({ request with messages := request.messages.map (withoutFrom (removedOf sha256 signed request) 0) },
        markRemoved (removedOf sha256 signed request) signed) :=
  if_neg h

/-! ### The store of lists -/

def Message.ref {L : Type} : Message L → Option L
  | .dict _ (some (.list ref)) => some ref
  | _ => none

def InStore (store : Store) (messages : List (Message ℕ)) : Prop :=
  ∀ message ∈ messages, ∀ ref ∈ message.ref, ref < store.length

theorem Store.read_append {store more : Store} {ref : ℕ} (h : ref < store.length) :
    (store ++ more).read ref = store.read ref := by
  unfold Store.read
  rw [List.getD_eq_getElem?_getD, List.getD_eq_getElem?_getD, List.getElem?_append_left h]

theorem Message.map_congr {L M : Type} {f g : L → M} {message : Message L}
    (h : ∀ ref ∈ message.ref, f ref = g ref) : message.map f = message.map g := by
  match message with
  | .dict _ (some (.list ref)) => exact congrArg (fun blocks => Message.dict _ (some (.list blocks))) (h ref rfl)
  | .dict _ (some (.other _)) => rfl
  | .dict _ none => rfl
  | .other _ => rfl

theorem map_read_append {store : Store} (more : Store) {messages : List (Message ℕ)}
    (h : InStore store messages) :
    messages.map (Message.map (store ++ more).read) = messages.map (Message.map store.read) :=
  List.map_congr_left fun message hmessage => Message.map_congr fun ref href =>
    Store.read_append (h message hmessage ref href)

theorem Store.lt_append {store : Store} {ref : ℕ} (h : ref < store.length) (more : Store) :
    ref < (store ++ more).length := by
  rw [List.length_append]
  exact Nat.lt_add_right _ h

theorem InStore.append {store : Store} {messages : List (Message ℕ)} (h : InStore store messages)
    (more : Store) : InStore (store ++ more) messages := fun message hmessage ref href =>
  Store.lt_append (h message hmessage ref href) more

theorem keptBlocks_of_untouched {removed : List Located} {index : ℕ}
    (h : (removed.any fun entry => entry.message = index) = false) (blocks : List Json) :
    keptBlocks removed index blocks = blocks := by
  refine pick_eq_self fun block position _ => ?_
  have hnone : (removed.any fun entry => entry.message = index && entry.block = position) = false := by
    rw [List.any_eq_false] at h ⊢
    intro entry hentry hboth
    exact h entry hentry (Bool.and_eq_true_iff.mp hboth).1
  simp only [hnone]
  decide

theorem removeIn_spec (removed : List Located) (index : ℕ) (store : Store) {message : Message ℕ}
    (h : ∀ ref ∈ message.ref, ref < store.length) :
    ∃ more, (removeIn removed index store message).1 = store ++ more ∧
      (∀ ref ∈ (removeIn removed index store message).2.ref, ref < (store ++ more).length) ∧
      (removeIn removed index store message).2.map (store ++ more).read =
        (message.map store.read).without removed index := by
  match message with
  | .dict fields (some (.list ref)) =>
    by_cases htouched : (removed.any fun entry => entry.message = index) = true
    · have hremove : removeIn removed index store (.dict fields (some (.list ref))) =
          (store ++ [keptBlocks removed index (store.read ref)],
            .dict fields (some (.list store.length))) := by
        simp only [removeIn, htouched, if_true]
      have hread : (store ++ [keptBlocks removed index (store.read ref)]).read store.length =
          keptBlocks removed index (store.read ref) := by
        simp [Store.read]
      rw [hremove]
      refine ⟨_, rfl, ?_, ?_⟩
      · intro ref' href'
        obtain rfl := Option.some.inj href'
        simp
      · simp only [Message.map, Option.map_some, Content.map, Message.without, hread]
    · have hremove : removeIn removed index store (.dict fields (some (.list ref))) =
          (store, .dict fields (some (.list ref))) := by
        simp only [removeIn, htouched, Bool.false_eq_true, if_false]
      have hkept := keptBlocks_of_untouched (Bool.eq_false_iff.mpr htouched) (store.read ref)
      rw [hremove]
      refine ⟨[], (List.append_nil store).symm, ?_, ?_⟩
      · rw [List.append_nil]
        exact h
      · simp only [Message.map, Option.map_some, Content.map, Message.without, hkept, List.append_nil]
  | .dict _ (some (.other _)) =>
    exact ⟨[], (List.append_nil store).symm, fun ref href => absurd href (Option.not_mem_none ref), rfl⟩
  | .dict _ none =>
    exact ⟨[], (List.append_nil store).symm, fun ref href => absurd href (Option.not_mem_none ref), rfl⟩
  | .other _ =>
    exact ⟨[], (List.append_nil store).symm, fun ref href => absurd href (Option.not_mem_none ref), rfl⟩

theorem removeFrom_spec (removed : List Located) {store : Store} {messages : List (Message ℕ)}
    (h : InStore store messages) (index : ℕ) :
    ∃ more, (removeFrom removed index store messages).1 = store ++ more ∧
      InStore (store ++ more) (removeFrom removed index store messages).2 ∧
      (removeFrom removed index store messages).2.map (Message.map (store ++ more).read) =
        withoutFrom removed index (messages.map (Message.map store.read)) := by
  induction messages generalizing store index with
  | nil => exact ⟨[], (List.append_nil store).symm, fun _ h => absurd h List.not_mem_nil, rfl⟩
  | cons message messages ih =>
    have hrest : InStore store messages := fun later hlater => h later (List.mem_cons_of_mem _ hlater)
    obtain ⟨here, hstore, href, hmessage⟩ := removeIn_spec removed index store (h message List.mem_cons_self)
    obtain ⟨there, hstores, hin, hmessages⟩ := ih (hrest.append here) (index + 1)
    rw [map_read_append here hrest] at hmessages
    refine ⟨here ++ there, ?_, ?_, ?_⟩
    · show (removeFrom removed (index + 1) (removeIn removed index store message).1 messages).1 = _
      rw [hstore, hstores, List.append_assoc]
    · intro later hlater ref hlaterRef
      rw [← List.append_assoc]
      have hlater : later = (removeIn removed index store message).2 ∨
          later ∈ (removeFrom removed (index + 1) (removeIn removed index store message).1 messages).2 :=
        List.mem_cons.mp hlater
      rw [hstore] at hlater
      obtain rfl | hlater := hlater
      · exact Store.lt_append (href ref hlaterRef) there
      · exact hin later hlater ref hlaterRef
    · show (removeIn removed index store message).2.map _ ::
          (removeFrom removed (index + 1) (removeIn removed index store message).1 messages).2.map _ = _
      have hkeep : (removeIn removed index store message).2.map (store ++ (here ++ there)).read =
          (removeIn removed index store message).2.map (store ++ here).read := by
        rw [← List.append_assoc]
        exact Message.map_congr fun ref hmem => Store.read_append (href ref hmem)
      rw [hkeep, hmessage, hstore, ← List.append_assoc, hmessages]
      rfl

/-- What `strip_stale` does to the values of a payload, and that it only adds lists. -/
theorem stripStale_spec (signed : Signed) {store : Store} {payload : Payload ℕ}
    (h : InStore store (payload.messages.getD [])) :
    ∃ count more after bindings,
      stripStale sha256 store signed payload = (count, store ++ more, after, bindings) ∧
      count = (removedOf sha256 signed (view store payload)).length ∧
      InStore (store ++ more) (after.messages.getD []) ∧
      (view (store ++ more) after, bindings) = strip sha256 signed (view store payload) := by
  unfold stripStale
  cases hmessages : payload.messages with
  | none =>
    have hremoved : removedOf sha256 signed (view store payload) = [] := by
      unfold removedOf view Payload.map
      rw [hmessages]
      rfl
    refine ⟨0, [], payload, signed, by rw [List.append_nil], by rw [hremoved]; rfl, ?_, ?_⟩
    · rw [hmessages]
      exact fun _ h => absurd h List.not_mem_nil
    · rw [List.append_nil, strip_of_nil hremoved]
  | some messages =>
    rw [hmessages, Option.getD_some] at h
    show ∃ count more after bindings, (if removedOf sha256 signed (view store payload) = [] then _ else _) = _ ∧ _
    split
    next hremoved =>
      refine ⟨0, [], payload, signed, by rw [List.append_nil], by rw [hremoved]; rfl, ?_, ?_⟩
      · rw [hmessages, List.append_nil]
        exact h
      · rw [List.append_nil, strip_of_nil hremoved]
    next hremoved =>
      obtain ⟨more, hstore, hin, hview⟩ := removeFrom_spec (removedOf sha256 signed (view store payload)) h 0
      refine ⟨_, more, { payload with messages := some (removeFrom
        (removedOf sha256 signed (view store payload)) 0 store messages).2 },
        markRemoved (removedOf sha256 signed (view store payload)) signed, ?_, rfl, hin, ?_⟩
      · rw [← hstore]
        rfl
      · rw [strip_of_ne_nil hremoved]
        refine Prod.ext ?_ rfl
        show ({ payload with messages := some (_ : List (Message (List Json))) } : Payload (List Json)) = _
        rw [hview]
        simp [view, Payload.map, hmessages]

/-! ### The thinking blocks of a request -/

def thinking (request : Payload (List Json)) : List (ℕ × Json) :=
  (request.messages.getD []).zipIdx.flatMap fun message =>
    (message.1.blocks.filter isBound).map fun block => (message.2, block)

/-- A thinking block with the index of its message and its place in it. -/
abbrev Sight := ℕ × ℕ × Json

def Sight.located (sha256 : Text → Digest) (sight : Sight) : Located :=
  ⟨sight.1, sight.2.1, blockKey sha256 sight.2.2⟩

def Sight.place (sight : Sight) : ℕ × ℕ := (sight.1, sight.2.1)

def sightIn (index : ℕ) (blocks : List Json) : List Sight :=
  (blocks.zipIdx.filter fun block => isBound block.1).map fun block => (index, block.2, block.1)

def sight (messages : List (Message (List Json))) : List Sight :=
  messages.zipIdx.flatMap fun message => sightIn message.2 message.1.blocks

theorem locateIn_eq (index : ℕ) (blocks : List Json) :
    locateIn sha256 index blocks = (sightIn index blocks).map (Sight.located sha256) := by
  unfold locateIn sightIn
  rw [List.map_map]
  induction blocks.zipIdx with
  | nil => rfl
  | cons block blocks ih =>
    rw [List.filterMap_cons, List.filter_cons, ih]
    by_cases hbound : isBound block.1 = true
    · rw [if_pos hbound, if_pos hbound]
      rfl
    · rw [if_neg hbound, if_neg hbound]

theorem locate_eq (messages : List (Message (List Json))) :
    locate sha256 messages = (sight messages).map (Sight.located sha256) := by
  unfold locate sight
  rw [List.map_flatMap]
  exact List.flatMap_congr fun message _ => locateIn_eq message.2 message.1.blocks

theorem thinkingIn_eq (index : ℕ) (blocks : List Json) :
    ((blocks.filter isBound).map fun block => (index, block)) =
      (sightIn index blocks).map fun sight => (sight.1, sight.2.2) := by
  unfold sightIn
  rw [filter_eq_pick, pick, List.map_map, List.map_map]
  rfl

theorem thinking_eq (request : Payload (List Json)) :
    thinking request = (sight (request.messages.getD [])).map fun sight => (sight.1, sight.2.2) := by
  unfold thinking sight
  rw [List.map_flatMap]
  exact List.flatMap_congr fun message _ => thinkingIn_eq message.2 message.1.blocks

theorem map_place_sightIn (index : ℕ) (blocks : List Json) : (sightIn index blocks).map Sight.place =
    ((blocks.zipIdx.filter fun block => isBound block.1).map Prod.snd).map fun position => (index, position) := by
  unfold sightIn
  rw [List.map_map, List.map_map]
  rfl

theorem nodup_place (messages : List (Message (List Json))) : ((sight messages).map Sight.place).Nodup := by
  unfold sight
  rw [List.map_flatMap, List.nodup_flatMap]
  refine ⟨fun message _ => ?_, ?_⟩
  · have hplaces := (List.nodup_zipIdx_map_snd message.1.blocks).sublist
      ((List.filter_sublist (p := fun block => isBound block.1)).map Prod.snd)
    rw [map_place_sightIn]
    exact hplaces.map fun a b hab => (Prod.mk.inj hab).2
  · have hindices : messages.zipIdx.Pairwise fun a b => a.2 ≠ b.2 :=
      List.pairwise_map.mp (List.nodup_zipIdx_map_snd messages)
    refine hindices.imp fun {a b} hne => ?_
    intro place ha hb
    simp only [map_place_sightIn] at ha hb
    obtain ⟨i, -, rfl⟩ := List.mem_map.mp ha
    obtain ⟨j, -, hj⟩ := List.mem_map.mp hb
    exact hne (Prod.mk.inj hj).1.symm

/-! ### What is left -/

def recordAt (sha256 : Text → Digest) (signed : Signed) (block : ℕ × Json) : Option Digest :=
  (blockKey sha256 block.2).bind fun key => signed.lookup key

/-- A block that is recorded under another prefix than the one in front of its message. -/
def changedAt (sha256 : Text → Digest) (signed : Signed) (request : Payload (List Json)) (block : ℕ × Json) :
    Bool :=
  match recordAt sha256 signed block with
  | some recorded => recorded ≠ removedMark && (digests sha256 request)[block.1]? ≠ some recorded
  | none => false

def removedAt (sha256 : Text → Digest) (signed : Signed) (block : ℕ × Json) : Bool :=
  recordAt sha256 signed block = some removedMark

/-- The blocks in front of the first changed one, less those that were removed before. -/
def kept (sha256 : Text → Digest) (signed : Signed) (request : Payload (List Json)) : List (ℕ × Json) :=
  ((thinking request).takeWhile fun block => !changedAt sha256 signed request block).filter
    fun block => !removedAt sha256 signed block

/-- The blocks that go: those that were removed before, and all from the first changed one on. -/
def gone (sha256 : Text → Digest) (signed : Signed) (request : Payload (List Json)) : List (ℕ × Json) :=
  ((thinking request).takeWhile fun block => !changedAt sha256 signed request block).filter
      (removedAt sha256 signed) ++
    (thinking request).dropWhile fun block => !changedAt sha256 signed request block

def goes (sha256 : Text → Digest) (signed : Signed) (request : Payload (List Json)) (entry : Sight × ℕ) : Bool :=
  ((sight (request.messages.getD [])).findIdx fun sight =>
    changedAt sha256 signed request (sight.1, sight.2.2)) ≤ entry.2 ||
      removedAt sha256 signed (entry.1.1, entry.1.2.2)

theorem removedOf_eq (signed : Signed) (request : Payload (List Json)) :
    removedOf sha256 signed request =
      (pick (goes sha256 signed request) (sight (request.messages.getD []))).map (Sight.located sha256) := by
  unfold removedOf stale
  rw [locate_eq, pick_map, List.findIdx_map]
  rfl

theorem keptBlocks_thinking (removed : List Located) (index : ℕ) (blocks : List Json) :
    (((keptBlocks removed index blocks).filter isBound).map fun block => (index, block)) =
      ((sightIn index blocks).filter fun sight =>
        ¬removed.any fun entry => entry.message = sight.1 && entry.block = sight.2.1).map
          fun sight => (sight.1, sight.2.2) := by
  unfold keptBlocks sightIn
  rw [filter_pick, pick, List.filter_map, List.filter_filter, List.map_map, List.map_map]
  refine congrArg _ (List.filter_congr fun block _ => ?_)
  exact Bool.and_comm _ _

theorem any_removedOf (signed : Signed) (request : Payload (List Json)) (sight : Sight) :
    ((removedOf sha256 signed request).any fun entry => entry.message = sight.1 && entry.block = sight.2.1) =
      decide (sight.place ∈ (pick (goes sha256 signed request) (Thinking.sight (request.messages.getD []))).map
        Sight.place) := by
  rw [removedOf_eq, List.any_map, Bool.eq_iff_iff, List.any_eq_true, decide_eq_true_iff, List.mem_map]
  refine exists_congr fun other => and_congr_right fun _ => ?_
  simp only [Function.comp_apply, Sight.located, Sight.place, Bool.and_eq_true, Prod.mk.injEq]
  exact and_congr decide_eq_true_iff decide_eq_true_iff

theorem thinkingIn_without (removed : List Located) (index : ℕ) (message : Message (List Json)) :
    (((message.without removed index).blocks.filter isBound).map fun block => (index, block)) =
      (((keptBlocks removed index message.blocks).filter isBound).map fun block => (index, block)) := by
  match message with
  | .dict _ (some (.list _)) => rfl
  | .dict _ (some (.other _)) => rfl
  | .dict _ none => rfl
  | .other _ => rfl

theorem thinking_withoutFrom (removed : List Located) (request : Payload (List Json))
    (messages : List (Message (List Json))) :
    thinking { request with messages := some (withoutFrom removed 0 messages) } =
      ((sight messages).filter fun sight => ¬removed.any fun entry =>
        entry.message = sight.1 && entry.block = sight.2.1).map fun sight => (sight.1, sight.2.2) := by
  unfold thinking withoutFrom sight
  rw [Option.getD_some, zipIdx_map_zipIdx, List.flatMap_map, List.filter_flatMap, List.map_flatMap]
  refine List.flatMap_congr fun message _ => ?_
  exact (thinkingIn_without removed message.2 message.1).trans
    (keptBlocks_thinking removed message.2 message.1.blocks)

theorem thinking_without (signed : Signed) (request : Payload (List Json)) :
    thinking { request with messages := request.messages.map (withoutFrom (removedOf sha256 signed request) 0) } =
      kept sha256 signed request := by
  cases hmessages : request.messages with
  | none =>
    have hnone : thinking request = [] := by
      unfold thinking
      rw [hmessages]
      rfl
    unfold kept
    rw [hnone]
    rfl
  | some messages =>
    have hgetD : request.messages.getD [] = messages := by rw [hmessages]; rfl
    have hpicked : (sight messages).filter (fun sight => ¬(removedOf sha256 signed request).any fun entry =>
        entry.message = sight.1 && entry.block = sight.2.1) =
          pick (fun entry => !goes sha256 signed request entry) (sight messages) := by
      rw [← filter_not_picked (nodup_place messages), ← hgetD]
      refine List.filter_congr fun other _ => ?_
      rw [any_removedOf]
      simp
    have hbefore : pick (fun entry => !goes sha256 signed request entry) (sight messages) =
        ((sight messages).takeWhile fun sight => !changedAt sha256 signed request (sight.1, sight.2.2)).filter
          fun sight => !removedAt sha256 signed (sight.1, sight.2.2) := by
      rw [List.takeWhile_eq_take_findIdx_not, ← pick_before]
      refine pick_congr fun sight position _ => ?_
      unfold goes
      simp only [hgetD, Bool.not_or, Bool.not_not, ← decide_not, Nat.not_le]
      exact Bool.and_comm _ _
    show thinking { request with messages := some (withoutFrom _ 0 messages) } = _
    rw [thinking_withoutFrom, hpicked, hbefore]
    unfold kept
    rw [thinking_eq, hgetD, List.takeWhile_map, List.filter_map]
    rfl

/-! ### What does not change -/

def others (blocks : List Json) : List Json := blocks.filter fun block => !isBound block

theorem canonicalItems_others (items : List Json) : canonicalItems (others items) = canonicalItems items := by
  induction items with
  | nil => rfl
  | cons item items ih =>
    unfold others at ih ⊢
    by_cases hbound : isBound item = true
    · rw [List.filter_cons_of_neg (by simp [hbound]), ih]
      simp only [canonicalItems, hbound, if_true]
    · rw [List.filter_cons_of_pos (by simp [hbound])]
      simp only [canonicalItems, hbound, Bool.false_eq_true, if_false, ih]

theorem canonicalMembers_append (members : List (Text × Json)) {value value' : Json}
    (h : canonical value = canonical value') (key : Text) :
    canonicalMembers (members ++ [(key, value)]) = canonicalMembers (members ++ [(key, value')]) := by
  induction members with
  | nil => simp only [List.nil_append, canonicalMembers, h]
  | cons member members ih => simp only [List.cons_append, canonicalMembers, ih]

theorem messageText_others (message : Message (List Json)) :
    messageText (message.map others) = messageText message := by
  match message with
  | .dict fields (some (.list blocks)) =>
    have hcanonical : canonical (.arr (others blocks)) = canonical (.arr blocks) := by
      simp only [canonical, canonicalItems_others]
    show comma :: jsonForm (canonical (.obj (fields ++ [(contentKey, .arr (others blocks))]))) =
      comma :: jsonForm (canonical (.obj (fields ++ [(contentKey, .arr blocks)])))
    simp only [canonical, canonicalMembers_append fields hcanonical]
  | .dict _ (some (.other _)) => rfl
  | .dict _ none => rfl
  | .other _ => rfl

theorem runningTexts_others (running : Text) (messages : List (Message (List Json))) :
    runningTexts running (messages.map (Message.map others)) = runningTexts running messages := by
  induction messages generalizing running with
  | nil => rfl
  | cons message messages ih => rw [List.map_cons, runningTexts, runningTexts, messageText_others, ih]

theorem prefixTexts_others (request : Payload (List Json)) :
    prefixTexts (request.map others) = prefixTexts request := by
  unfold prefixTexts
  cases hmessages : request.messages with
  | none => simp [Payload.map, hmessages, openingText]
  | some messages =>
    simp only [Payload.map, hmessages, Option.map_some, Option.getD_some]
    exact runningTexts_others _ messages

theorem mem_sight {messages : List (Message (List Json))} {found : Sight} (h : found ∈ sight messages) :
    ∃ message, messages[found.1]? = some message ∧ message.blocks[found.2.1]? = some found.2.2 ∧
      isBound found.2.2 = true := by
  obtain ⟨message, hmessage, hfound⟩ := List.mem_flatMap.mp h
  obtain ⟨block, hblock, rfl⟩ := List.mem_map.mp hfound
  obtain ⟨hmem, hbound⟩ := List.mem_filter.mp hblock
  exact ⟨message.1, List.mem_zipIdx_iff_getElem?.mp hmessage, List.mem_zipIdx_iff_getElem?.mp hmem, hbound⟩

theorem others_keptBlocks (signed : Signed) (request : Payload (List Json)) {index : ℕ}
    {message : Message (List Json)} (hmessage : (request.messages.getD [])[index]? = some message) :
    others (keptBlocks (removedOf sha256 signed request) index message.blocks) = others message.blocks := by
  refine filter_pick_of_forall fun block position hblock hother => ?_
  refine decide_eq_true fun hremoved => ?_
  rw [any_removedOf signed request (index, position, block), decide_eq_true_iff] at hremoved
  obtain ⟨found, hfound, hplace⟩ := List.mem_map.mp hremoved
  obtain ⟨there, hthere, hblockThere, hbound⟩ := mem_sight ((pick_sublist _ _).subset hfound)
  obtain ⟨hindex, hposition⟩ := Prod.mk.inj hplace
  rw [hindex, hmessage] at hthere
  obtain rfl := Option.some.inj hthere
  rw [hposition, hblock] at hblockThere
  rw [Option.some.inj hblockThere, hbound] at hother
  exact absurd hother (by decide)

theorem map_others_without (signed : Signed) (request : Payload (List Json)) {index : ℕ}
    {message : Message (List Json)} (hmessage : (request.messages.getD [])[index]? = some message) :
    (message.without (removedOf sha256 signed request) index).map others = message.map others := by
  match message with
  | .dict fields (some (.list blocks)) =>
    exact congrArg (fun blocks => Message.dict fields (some (.list blocks)))
      (others_keptBlocks signed request hmessage)
  | .dict _ (some (.other _)) => rfl
  | .dict _ none => rfl
  | .other _ => rfl

theorem map_others_strip (signed : Signed) (request : Payload (List Json)) :
    (strip sha256 signed request).1.map others = request.map others := by
  by_cases hremoved : removedOf sha256 signed request = []
  · rw [strip_of_nil hremoved]
  · rw [strip_of_ne_nil hremoved]
    unfold Payload.map
    refine congrArg (Payload.mk request.system request.tools) ?_
    show Option.map _ (request.messages.map _) = _
    cases hmessages : request.messages with
    | none => rfl
    | some messages =>
      have hgetD : request.messages.getD [] = messages := by rw [hmessages]; rfl
      refine congrArg some ?_
      unfold withoutFrom
      rw [List.map_map]
      conv_rhs => rw [← List.zipIdx_map_fst 0 messages, List.map_map]
      refine List.map_congr_left fun pair hpair => ?_
      refine map_others_without signed request ?_
      rw [hgetD]
      exact List.mem_zipIdx_iff_getElem?.mp hpair

theorem prefixTexts_strip (signed : Signed) (request : Payload (List Json)) :
    prefixTexts (strip sha256 signed request).1 = prefixTexts request := by
  rw [← prefixTexts_others, map_others_strip, prefixTexts_others]

theorem blocks_without_sublist (removed : List Located) (index : ℕ) (message : Message (List Json)) :
    (message.without removed index).blocks.Sublist message.blocks := by
  match message with
  | .dict _ (some (.list blocks)) => exact pick_sublist _ blocks
  | .dict _ (some (.other _)) => exact List.Sublist.refl _
  | .dict _ none => exact List.Sublist.refl _
  | .other _ => exact List.Sublist.refl _

theorem blocks_withoutFrom_sublist (removed : List Located) (index : ℕ) (messages : List (Message (List Json))) :
    List.Forall₂ (fun after before => after.blocks.Sublist before.blocks)
      (withoutFrom removed index messages) messages := by
  induction messages generalizing index with
  | nil => exact List.Forall₂.nil
  | cons message messages ih =>
    exact List.Forall₂.cons (blocks_without_sublist removed index message) (ih (index + 1))

theorem blocks_strip_sublist (signed : Signed) (request : Payload (List Json)) :
    List.Forall₂ (fun after before => after.blocks.Sublist before.blocks)
      ((strip sha256 signed request).1.messages.getD []) (request.messages.getD []) := by
  by_cases hremoved : removedOf sha256 signed request = []
  · rw [strip_of_nil hremoved]
    exact List.forall₂_same.mpr fun message _ => List.Sublist.refl _
  · rw [strip_of_ne_nil hremoved]
    cases hmessages : request.messages with
    | none => simp
    | some messages => exact blocks_withoutFrom_sublist _ 0 messages

theorem mem_gone {signed : Signed} {request : Payload (List Json)} {block : ℕ × Json} :
    block ∈ gone sha256 signed request ↔
      ∃ found ∈ pick (goes sha256 signed request) (sight (request.messages.getD [])),
        (found.1, found.2.2) = block := by
  unfold gone goes
  rw [thinking_eq, List.takeWhile_map, List.dropWhile_map, List.filter_map, ← List.map_append, List.mem_map]
  refine exists_congr fun found => and_congr_left fun _ => ?_
  rw [List.mem_append, List.takeWhile_eq_take_findIdx_not, List.dropWhile_eq_drop_findIdx_not]
  simp only [Function.comp_def, Bool.not_not]
  exact (mem_pick_from _ (fun sight : Sight => removedAt sha256 signed (sight.1, sight.2.2)) _).symm

theorem mem_keys_removedOf {signed : Signed} {request : Payload (List Json)} {key : Digest} :
    key ∈ (removedOf sha256 signed request).filterMap Located.key ↔
      ∃ block ∈ gone sha256 signed request, blockKey sha256 block.2 = some key := by
  rw [removedOf_eq, List.filterMap_map, List.mem_filterMap]
  constructor
  · rintro ⟨found, hfound, hkey⟩
    exact ⟨(found.1, found.2.2), mem_gone.mpr ⟨found, hfound, rfl⟩, hkey⟩
  · rintro ⟨block, hblock, hkey⟩
    obtain ⟨found, hfound, rfl⟩ := mem_gone.mp hblock
    exact ⟨found, hfound, hkey⟩

theorem removedOf_eq_nil_iff {signed : Signed} {request : Payload (List Json)} :
    removedOf sha256 signed request = [] ↔ gone sha256 signed request = [] := by
  rw [removedOf_eq, List.map_eq_nil_iff, List.eq_nil_iff_forall_not_mem, List.eq_nil_iff_forall_not_mem]
  constructor
  · intro h block hblock
    obtain ⟨found, hfound, -⟩ := mem_gone.mp hblock
    exact h found hfound
  · exact fun h found hfound => h _ (mem_gone.mpr ⟨found, hfound, rfl⟩)

theorem kept_of_gone_nil {signed : Signed} {request : Payload (List Json)}
    (h : gone sha256 signed request = []) : kept sha256 signed request = thinking request := by
  obtain ⟨hbefore, hfrom⟩ := List.append_eq_nil_iff.mp h
  have hall : (thinking request).takeWhile (fun block => !changedAt sha256 signed request block) =
      thinking request := by
    conv_rhs => rw [← List.takeWhile_append_dropWhile (p := fun block => !changedAt sha256 signed request block)
      (l := thinking request), hfrom, List.append_nil]
  unfold kept
  rw [hall] at hbefore ⊢
  refine List.filter_eq_self.mpr fun block hblock => ?_
  have hnot := List.filter_eq_nil_iff.mp hbefore block hblock
  simpa using hnot

theorem thinking_strip (signed : Signed) (request : Payload (List Json)) :
    thinking (strip sha256 signed request).1 = kept sha256 signed request := by
  by_cases hremoved : removedOf sha256 signed request = []
  · rw [strip_of_nil hremoved, kept_of_gone_nil (removedOf_eq_nil_iff.mp hremoved)]
  · rw [strip_of_ne_nil hremoved]
    exact thinking_without signed request

end VidbyteSdk.Providers.Thinking
