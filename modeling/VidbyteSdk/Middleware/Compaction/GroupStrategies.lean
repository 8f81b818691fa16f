import VidbyteSdk.Middleware.Compaction.Exchanges

/-!
# Strategies that keep exchanges whole

What the strategies that select by groups make of a well-formed history: its exchanges are kept whole or not at all, and
the pairing repair finds nothing to drop.
-/

namespace VidbyteSdk.Middleware.Compaction

open VidbyteSdk.Lib
open Json (lit)

inductive GroupStrategy
  | trimWithProviderBoundaries (tokenCounter : Option (Text → ℤ)) (maxMessages maxTokens : Option ℕ)
  | salienceScoreEviction (eviction : SalienceEviction)
  | selectiveContextPruning (pruning : SelectivePruning)
  | deduplicateToolCalls
  | summarizeRange (summarize : List ContextMessage → Text) (keepLast : ℕ)
  | summarizeOldestN (summarize : List ContextMessage → Text) (n : ℕ)
  | replaceWithTrace (trace : ReplaceWithTrace)

namespace GroupStrategy

/-- `compact` of a strategy; none where it raises. -/
def compact (B : Builtins) : GroupStrategy → List ContextMessage → Option (List ContextMessage)
  | .trimWithProviderBoundaries tokenCounter maxMessages maxTokens, messages =>
    some (Compaction.trimWithProviderBoundaries tokenCounter maxMessages maxTokens messages)
  | .salienceScoreEviction eviction, messages => eviction.compact B messages
  | .selectiveContextPruning pruning, messages => some (pruning.compact messages)
  | .deduplicateToolCalls, messages => some (Compaction.deduplicateToolCalls messages)
  | .summarizeRange summarize keepLast, messages => some (Compaction.summarizeRange summarize keepLast messages)
  | .summarizeOldestN summarize n, messages => some (Compaction.summarizeOldestN summarize n messages)
  | .replaceWithTrace trace, messages => trace.compact B messages

def movesSystem : GroupStrategy → Bool
  | .summarizeRange _ _ | .summarizeOldestN _ _ | .replaceWithTrace _ => true
  | _ => false

end GroupStrategy

def isExchange (B : Builtins) : List ContextMessage → Bool := heads fun message => (pairingTag B message).role = some .call

/-- The exchanges are kept whole or not at all, and the repair drops nothing. -/
structure KeepsExchanges (B : Builtins) (segments : List (List ContextMessage)) (kept : List ContextMessage) : Prop where
  whole : ∃ segments' : List (List ContextMessage), WellFormed B segments' ∧ kept = segments'.flatten ∧
    (segments'.filter (isExchange B)).Sublist (segments.filter (isExchange B))
  repaired : repairToolPairing B kept = kept

/-- The system messages come first, and one message stands in the place of what is gone of the others. -/
def SystemFirst (messages kept : List ContextMessage) : Prop :=
  kept = messages ∨ ∃ before inserted after, kept = systemMessages messages ++ (before ++ inserted :: after) ∧
    (before ++ after).Sublist (nonSystemMessages messages)

variable {B : Builtins} {segments : List (List ContextMessage)}

/-! ### The two ways to keep segments -/

theorem keeps_of_sublist {segments' : List (List ContextMessage)} (h : WellFormed B segments)
    (hsublist : segments'.Sublist segments) :
    KeepsExchanges B segments segments'.flatten ∧ segments'.flatten.Sublist segments.flatten :=
  ⟨⟨⟨segments', h.of_sublist hsublist, rfl, hsublist.filter _⟩, repairToolPairing_flatten (h.of_sublist hsublist)⟩,
    hsublist.flatten⟩

theorem keeps_self (h : WellFormed B segments) : KeepsExchanges B segments segments.flatten :=
  (keeps_of_sublist h (List.Sublist.refl segments)).1

theorem not_isExchange_of_system (h : WellFormed B segments) {segment : List ContextMessage}
    (hsegment : segment ∈ systemSegments segments) : isExchange B segment = false := by
  obtain ⟨hmem, hsystem⟩ := List.mem_filter.mp hsegment
  cases h segment hmem with
  | @plain message hplain =>
    rw [isExchange, heads, List.head?_cons, Option.any_some, hplain]
    rfl
  | @exchange call results hexchange =>
    have := hexchange.not_system call List.mem_cons_self
    rw [heads, List.head?_cons, Option.any_some, this] at hsystem
    cases hsystem

theorem keeps_of_replaced (h : WellFormed B segments) (before : List (List ContextMessage))
    {after : List (List ContextMessage)} {inserted : ContextMessage} (hinserted : (pairingTag B inserted).role = none)
    (hsublist : (before ++ after).Sublist (otherSegments segments)) :
    KeepsExchanges B segments
        (systemMessages segments.flatten ++ (before.flatten ++ inserted :: after.flatten)) ∧
      SystemFirst segments.flatten
        (systemMessages segments.flatten ++ (before.flatten ++ inserted :: after.flatten)) := by
  have hothers : (before ++ after).Sublist segments := hsublist.trans List.filter_sublist
  have hkept := h.of_sublist hothers
  have hwell : WellFormed B (systemSegments segments ++ (before ++ [inserted] :: after)) := by
    intro segment hsegment
    rw [List.mem_append, List.mem_append, List.mem_cons] at hsegment
    rcases hsegment with hsegment | hsegment | rfl | hsegment
    · exact h segment (List.mem_of_mem_filter hsegment)
    · exact hkept segment (List.mem_append_left _ hsegment)
    · exact .plain hinserted
    · exact hkept segment (List.mem_append_right _ hsegment)
  have hflatten : systemMessages segments.flatten ++ (before.flatten ++ inserted :: after.flatten) =
      (systemSegments segments ++ (before ++ [inserted] :: after)).flatten := by
    rw [systemMessages_flatten h, List.flatten_append, List.flatten_append, List.flatten_cons, List.singleton_append]
  have hexchanges : (systemSegments segments ++ (before ++ [inserted] :: after)).filter (isExchange B) =
      (before ++ after).filter (isExchange B) := by
    have hnew : isExchange B [inserted] = false := by
      rw [isExchange, heads, List.head?_cons, Option.any_some, hinserted]
      rfl
    rw [List.filter_append, List.filter_append, List.filter_append, List.filter_cons_of_neg (by simp [hnew]),
      List.filter_eq_nil_iff.mpr fun segment hsegment => by simp [not_isExchange_of_system h hsegment], List.nil_append]
  refine ⟨⟨⟨_, hwell, hflatten, ?_⟩, ?_⟩, Or.inr ⟨before.flatten, inserted, after.flatten, rfl, ?_⟩⟩
  · rw [hexchanges]
    exact hothers.filter _
  · rw [hflatten]
    exact repairToolPairing_flatten hwell
  · rw [nonSystemMessages_flatten h, ← List.flatten_append]
    exact hsublist.flatten

/-! ### Trimming, eviction, pruning and duplicates -/

theorem exists_trimmed (h : WellFormed B segments) (tokenCounter : Option (Text → ℤ)) (maxMessages maxTokens : Option ℕ) :
    ∃ kept : List (List ContextMessage), kept.Sublist segments ∧
      trimWithProviderBoundaries tokenCounter maxMessages maxTokens segments.flatten = kept.flatten := by
  refine ⟨boughtGroups tokenCounter maxMessages maxTokens segments.flatten, ?_, rfl⟩
  have := (boughtGroups_sublist tokenCounter maxMessages maxTokens segments.flatten).trans
    (countedGroups_suffix maxMessages segments.flatten).sublist
  rwa [providerGroups_flatten h] at this

theorem exists_evicted (h : WellFormed B segments) {eviction : SalienceEviction} {kept : List ContextMessage}
    (hkept : eviction.compact B segments.flatten = some kept) :
    ∃ segments' : List (List ContextMessage), segments'.Sublist segments ∧ kept = segments'.flatten := by
  rw [SalienceEviction.compact_eq] at hkept
  obtain ⟨chosen, -, rfl⟩ := Option.map_eq_some_iff.mp hkept
  refine ⟨(SalienceEviction.keptSpans segments.flatten chosen).map Span.group, ?_, List.flatMap_def⟩
  have := (List.filter_sublist (l := spansOf segments.flatten)
    (p := fun span => decide (span.start ∈ chosen.map Span.start))).map Span.group
  rwa [← SalienceEviction.keptSpans, spansOf, map_group_spansFrom, providerGroups_flatten h] at this

theorem pruneFrom_tools (pruning : SelectivePruning) (seen : List (Text × Text × Text)) {messages : List ContextMessage}
    (h : ∀ message ∈ messages, message.isToolCall = true ∨ message.isToolResult = true) (rest : List ContextMessage) :
    pruning.pruneFrom seen (messages ++ rest) = messages ++ pruning.pruneFrom seen rest := by
  induction messages with
  | nil => rfl
  | cons message messages ih =>
    obtain ⟨hmessage, hmessages⟩ := List.forall_mem_cons.mp h
    rw [List.cons_append, SelectivePruning.pruneFrom, if_pos, ih hmessages, List.cons_append]
    rw [Bool.or_assoc, Bool.or_eq_true, Bool.or_eq_true]
    exact Or.inr hmessage

theorem exists_pruned (pruning : SelectivePruning) (h : WellFormed B segments) (seen : List (Text × Text × Text)) :
    ∃ kept : List (List ContextMessage), kept.Sublist segments ∧
      pruning.pruneFrom seen segments.flatten = kept.flatten := by
  induction segments generalizing seen with
  | nil => exact ⟨[], List.Sublist.slnil, rfl⟩
  | cons segment segments ih =>
    obtain ⟨hsegment, hsegments⟩ := List.forall_mem_cons.mp h
    rw [List.flatten_cons]
    cases hsegment with
    | @plain message _ =>
      rw [List.singleton_append, SelectivePruning.pruneFrom]
      have hstays : ∀ seen, ∃ kept : List (List ContextMessage), kept.Sublist ([message] :: segments) ∧
          message :: pruning.pruneFrom seen segments.flatten = kept.flatten := by
        intro seen
        obtain ⟨kept, hkept, heq⟩ := ih hsegments seen
        exact ⟨[message] :: kept, hkept.cons_cons _, by rw [List.flatten_cons, heq, List.singleton_append]⟩
      split
      · exact hstays seen
      · split
        · obtain ⟨kept, hkept, heq⟩ := ih hsegments seen
          exact ⟨kept, hkept.cons _, heq⟩
        · exact hstays _
    | @exchange call results hexchange =>
      obtain ⟨kept, hkept, heq⟩ := ih hsegments seen
      refine ⟨(call :: results) :: kept, hkept.cons_cons _, ?_⟩
      have htools : ∀ message ∈ call :: results, message.isToolCall = true ∨ message.isToolResult = true :=
        List.forall_mem_cons.mpr ⟨Or.inl hexchange.call_kind, fun result hresult =>
          Or.inr (hexchange.results_kind result hresult)⟩
      rw [pruneFrom_tools pruning seen htools, heq, List.flatten_cons]

theorem resultsOnly_flatten (h : WellFormed B segments) : ResultsOnly segments.flatten := by
  intro message hmessage hresult
  obtain ⟨segment, hsegment, hmember⟩ := List.mem_flatten.mp hmessage
  cases h segment hsegment with
  | plain hplain =>
    obtain rfl := List.mem_singleton.mp hmember
    rw [isToolResult_of_role (by rw [hplain]; decide)] at hresult
    cases hresult
  | exchange hexchange =>
    rcases List.mem_cons.mp hmember with rfl | hmember
    · rw [isToolResult_of_isToolCall hexchange.call_kind] at hresult
      cases hresult
    · exact hexchange.results_only message hmember

theorem exists_deduplicated (h : WellFormed B segments) :
    ∃ kept : List (List ContextMessage), kept.Sublist segments ∧
      deduplicateToolCalls segments.flatten = kept.flatten := by
  refine ⟨keepFirsts callKey [] segments, keepFirsts_sublist callKey [] segments, ?_⟩
  rw [deduplicateToolCalls, dedupeFrom_eq [] (resultsOnly_flatten h), callGroups_flatten h]

/-! ### Summaries and traces -/

theorem role_of_made {message : ContextMessage} (horiginal : message.original = none)
    (hkind : message.isToolResult = false) : (pairingTag B message).role = none := by
  rw [pairingTag, horiginal, if_neg (by rw [hkind]; decide)]
  rfl

theorem prefix_takeUntil (limit count : ℕ) (groups : List (List ContextMessage)) :
    takeUntil limit count groups <+: groups := by
  induction groups generalizing count with
  | nil => exact List.prefix_rfl
  | cons group groups ih =>
    rw [takeUntil]
    split
    · exact List.prefix_cons_inj group |>.mpr (ih _)
    · exact List.nil_prefix

theorem providerGroups_nonSystem (h : WellFormed B segments) :
    providerGroups (nonSystemMessages segments.flatten) = otherSegments segments := by
  have hothers : WellFormed B (otherSegments segments) := h.of_sublist List.filter_sublist
  rw [nonSystemMessages_flatten h, providerGroups_flatten hothers]

theorem summarizeRange_keeps (h : WellFormed B segments) (summarize : List ContextMessage → Text) (keepLast : ℕ) :
    KeepsExchanges B segments (summarizeRange summarize keepLast segments.flatten) ∧
      SystemFirst segments.flatten (summarizeRange summarize keepLast segments.flatten) := by
  rw [summarizeRange, providerGroups_nonSystem h]
  split
  · exact ⟨keeps_self h, Or.inl rfl⟩
  · have hrecent : ((takeUntil keepLast 0 (otherSegments segments).reverse).reverse).Sublist (otherSegments segments) :=
      List.reverse_sublist.mp (by rw [List.reverse_reverse]; exact (prefix_takeUntil _ _ _).sublist)
    rw [List.append_assoc, List.singleton_append]
    exact keeps_of_replaced h [] (role_of_made rfl rfl) hrecent

theorem summarizeOldestN_keeps (h : WellFormed B segments) (summarize : List ContextMessage → Text) (n : ℕ) :
    KeepsExchanges B segments (summarizeOldestN summarize n segments.flatten) ∧
      SystemFirst segments.flatten (summarizeOldestN summarize n segments.flatten) := by
  rw [summarizeOldestN, providerGroups_nonSystem h]
  split
  · exact ⟨keeps_self h, Or.inl rfl⟩
  · rw [List.append_assoc, List.singleton_append]
    exact keeps_of_replaced h [] (role_of_made rfl rfl) (List.drop_sublist _ _)

namespace ReplaceWithTrace

theorem exists_body (marked : List (List ContextMessage × Bool)) (traceMessage : Option ContextMessage) :
    ∃ before after : List (List ContextMessage), (before ++ after).Sublist (marked.map Prod.fst) ∧
      assembleBody marked traceMessage = before.flatten ++ (traceMessage.toList ++ after.flatten) := by
  induction marked generalizing traceMessage with
  | nil => exact ⟨[], [], List.Sublist.slnil, (List.append_nil _).symm⟩
  | cons entry marked ih =>
    obtain ⟨group, replaced⟩ := entry
    cases replaced with
    | true =>
      obtain ⟨before, after, hsublist, heq⟩ := ih none
      refine ⟨[], before ++ after, hsublist.cons group, ?_⟩
      rw [assembleBody, if_pos rfl, heq, List.flatten_append]
      rfl
    | false =>
      obtain ⟨before, after, hsublist, heq⟩ := ih traceMessage
      refine ⟨group :: before, after, hsublist.cons_cons group, ?_⟩
      rw [assembleBody, if_neg (by decide), heq, List.flatten_cons, List.append_assoc]

theorem role_buildTraceMessage (trace : ReplaceWithTrace) (count : ℕ) :
    (pairingTag B (trace.buildTraceMessage count)).role = none := by
  unfold buildTraceMessage
  cases trace.placement with
  | summary => exact role_of_made rfl rfl
  | systemSuffix => exact role_of_made rfl rfl
  | syntheticUser => exact role_of_made rfl rfl

theorem compact_keeps (trace : ReplaceWithTrace) (h : WellFormed B segments) {kept : List ContextMessage}
    (hkept : trace.compact B segments.flatten = some kept) :
    KeepsExchanges B segments kept ∧ SystemFirst segments.flatten kept := by
  unfold compact at hkept
  split at hkept
  · obtain rfl := Option.some.inj hkept
    exact ⟨keeps_self h, Or.inl rfl⟩
  · rw [providerGroups_nonSystem h] at hkept
    obtain ⟨replaced, -, rfl⟩ := Option.map_eq_some_iff.mp hkept
    split
    · exact ⟨keeps_self h, Or.inl rfl⟩
    · generalize hmarked : ((otherSegments segments).zipIdx.map fun entry =>
        (entry.1, decide (entry.2 ∈ replaced))) = marked
      have hgroups : marked.map Prod.fst = otherSegments segments := by
        rw [← hmarked, List.map_map]
        exact List.zipIdx_map_fst 0 _
      dsimp only
      split
      · obtain ⟨before, after, hsublist, heq⟩ := exists_body marked none
        rw [hgroups] at hsublist
        rw [heq, Option.toList_none, List.nil_append, ← List.flatten_append, List.append_assoc, List.singleton_append]
        exact keeps_of_replaced h [] (role_buildTraceMessage trace _) hsublist
      · obtain ⟨before, after, hsublist, heq⟩ := exists_body marked
          (some (trace.buildTraceMessage ((marked.filter Prod.snd).map fun entry => entry.1.length).sum))
        rw [hgroups] at hsublist
        rw [heq, Option.toList_some, List.singleton_append]
        exact keeps_of_replaced h before (role_buildTraceMessage trace _) hsublist

end ReplaceWithTrace

/-- Each strategy keeps exchanges whole or not at all, in a transcript that the repair leaves as it is; those that replace
something put the system messages first, and the others keep the order. -/
theorem compact_keepsExchanges (B : Builtins) (strategy : GroupStrategy) (segments : List (List ContextMessage))
    (h : WellFormed B segments) (kept : List ContextMessage) (hkept : strategy.compact B segments.flatten = some kept) :
    KeepsExchanges B segments kept ∧
      if strategy.movesSystem then SystemFirst segments.flatten kept else kept.Sublist segments.flatten := by
  cases strategy with
  | trimWithProviderBoundaries tokenCounter maxMessages maxTokens =>
    obtain rfl := Option.some.inj hkept
    obtain ⟨segments', hsublist, heq⟩ := exists_trimmed h tokenCounter maxMessages maxTokens
    rw [heq]
    exact keeps_of_sublist h hsublist
  | salienceScoreEviction eviction =>
    obtain ⟨segments', hsublist, rfl⟩ := exists_evicted h hkept
    exact keeps_of_sublist h hsublist
  | selectiveContextPruning pruning =>
    obtain rfl := Option.some.inj hkept
    obtain ⟨segments', hsublist, heq⟩ := exists_pruned pruning h []
    rw [SelectivePruning.compact, heq]
    exact keeps_of_sublist h hsublist
  | deduplicateToolCalls =>
    obtain rfl := Option.some.inj hkept
    obtain ⟨segments', hsublist, heq⟩ := exists_deduplicated h
    rw [heq]
    exact keeps_of_sublist h hsublist
  | summarizeRange summarize keepLast =>
    obtain rfl := Option.some.inj hkept
    exact summarizeRange_keeps h summarize keepLast
  | summarizeOldestN summarize n =>
    obtain rfl := Option.some.inj hkept
    exact summarizeOldestN_keeps h summarize n
  | replaceWithTrace trace => exact trace.compact_keeps h hkept

/-! ### Histories -/

def userMessage (content : Text) : ContextMessage := { role := lit "user", content := content }

def chatCall : Json :=
  .obj [(lit "role", .str (lit "assistant")), (lit "tool_calls", .arr [.obj [(lit "id", .str (lit "c1")),
    (lit "function", .obj [(lit "name", .str (lit "read"))])]])]

def chatCallResult : Json :=
  .obj [(lit "role", .str (lit "tool")), (lit "tool_call_id", .str (lit "c1")), (lit "content", .str (lit "text"))]

def chatSegments : List (List ContextMessage) :=
  [[userMessage (lit "hi")],
    [providerToContextMessage plainBuiltins [] chatCall 1, providerToContextMessage plainBuiltins [] chatCallResult 2]]

theorem wellFormed_chatSegments : WellFormed plainBuiltins chatSegments := by
  have hcall : (pairingTag plainBuiltins (providerToContextMessage plainBuiltins [] chatCall 1)).ids =
      some {lit "c1"} := by decide
  have hresult : resultIds plainBuiltins (providerToContextMessage plainBuiltins [] chatCallResult 2) = {lit "c1"} := by
    decide
  refine List.forall_mem_cons.mpr ⟨.plain (by decide), List.forall_mem_singleton.mpr (.exchange ?_)⟩
  refine ⟨by decide, by decide, List.cons_ne_nil _ _, List.forall_mem_singleton.mpr (by decide),
    List.forall_mem_singleton.mpr (by decide),
    List.forall_mem_cons.mpr ⟨by decide, List.forall_mem_singleton.mpr (by decide)⟩, ?_⟩
  rw [hcall]
  refine ⟨List.forall_mem_singleton.mpr (by decide), List.pairwise_singleton _ _, fun id => ?_⟩
  rw [List.exists_mem_cons_iff, hresult]
  simp

theorem compact_keepsExchanges_chatSegments :
    KeepsExchanges plainBuiltins chatSegments (summarizeOldestN (fun _ => lit "sum") 1 chatSegments.flatten) ∧
      SystemFirst chatSegments.flatten (summarizeOldestN (fun _ => lit "sum") 1 chatSegments.flatten) :=
  compact_keepsExchanges plainBuiltins (.summarizeOldestN (fun _ => lit "sum") 1) chatSegments wellFormed_chatSegments _
    rfl

/-- A system message behind the message that is kept comes out in front of it. -/
theorem systemMessage_moved :
    summarizeRange (fun _ => lit "sum") 1 [userMessage (lit "a"), userMessage (lit "b"), systemMessage] =
      [systemMessage, summaryMessage (lit "summarize_range") (lit "sum"), userMessage (lit "b")] := by
  have hgroups : providerGroups (nonSystemMessages [userMessage (lit "a"), userMessage (lit "b"), systemMessage]) =
      [[userMessage (lit "a")], [userMessage (lit "b")]] :=
    groupRuns_of_none _ _ (forall_mem_of_all (by decide))
  rw [summarizeRange, hgroups]
  rfl

end VidbyteSdk.Middleware.Compaction
