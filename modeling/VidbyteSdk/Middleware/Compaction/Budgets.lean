import Mathlib.Tactic.Positivity
import VidbyteSdk.Lib.Checks
import VidbyteSdk.Middleware.Compaction.Strategies

/-!
# Budgets of the trimming strategies

What the strategies that trim by tokens, by count and by salience keep: a part of the history in its order, within their
budgets except for the system part, and a part that they keep again as it is. A count is applied before a token budget,
so it may take system groups, and a budget is charged by rank, so a system group that a salience outranks may come too
late.
-/

namespace VidbyteSdk.Middleware.Compaction

open VidbyteSdk.Lib
open Json (lit)

variable {tokenCounter : Option (Text → ℤ)}

theorem flatten_providerGroups (messages : List ContextMessage) : (providerGroups messages).flatten = messages :=
  flatten_groupRuns _ _ messages

theorem isGroup_of_mem {messages group : List ContextMessage} (h : group ∈ providerGroups messages) :
    IsGroup ContextMessage.isToolCall ContextMessage.isToolResult group :=
  isGroup_of_mem_groupRuns _ _ h

theorem totalCost_totalTokens (groups : List (List ContextMessage)) :
    totalCost (totalTokens tokenCounter) groups = totalTokens tokenCounter groups.flatten := by
  induction groups with
  | nil => rfl
  | cons group groups ih =>
    rw [totalCost_cons, ih, List.flatten_cons]
    exact (totalCost_append _ _ _).symm

/-! ### Messages -/

structure TrimsToTokenBudget (tokenCounter : Option (Text → ℤ)) (maxTokens : ℕ) (preserveSystem : Bool)
    (messages kept : List ContextMessage) : Prop where
  sublist : kept.Sublist messages
  keepsSystem : preserveSystem = true → systemMessages kept = systemMessages messages
  within : totalTokens tokenCounter kept ≤
    max maxTokens (totalTokens tokenCounter (if preserveSystem then systemMessages kept else []))
  idempotent : trimToTokenBudget tokenCounter maxTokens preserveSystem kept = kept

theorem trimsToTokenBudget (maxTokens : ℕ) (preserveSystem : Bool) (messages : List ContextMessage) :
    TrimsToTokenBudget tokenCounter maxTokens preserveSystem messages
      (trimToTokenBudget tokenCounter maxTokens preserveSystem messages) := by
  have haffordable := affordable_trimToBudget (fun message => preserveSystem && message.isSystem)
    (messageTokens tokenCounter) maxTokens messages
  refine ⟨trimToBudget_sublist _ _ _ _, ?_, ?_, trimToBudget_eq_self _ _ haffordable⟩
  · rintro rfl
    exact filter_trimToBudget _ _ _ _
  · cases preserveSystem with
    | true => exact haffordable.totalCost_le
    | false =>
      have := haffordable.totalCost_le
      rwa [List.filter_eq_nil_iff.mpr (by simp)] at this

/-! ### Groups -/

attribute [local grind =] newestGroups

variable {firstKept offset : ℕ}

theorem newestGroups_of_lt (h : firstKept < offset) (groups : List (List ContextMessage)) :
    newestGroups firstKept offset groups = groups := by
  induction groups generalizing offset with
  | nil => rfl
  | cons group groups ih => rw [newestGroups, if_pos (by omega), ih (by omega)]

theorem newestGroups_cons_of_lt {group : List ContextMessage}
    (h : firstKept < offset + group.length) (groups : List (List ContextMessage)) :
    newestGroups firstKept offset (group :: groups) = group :: groups := by
  rw [newestGroups, if_pos h, newestGroups_of_lt h]

theorem newestGroups_suffix (firstKept offset : ℕ) (groups : List (List ContextMessage)) :
    newestGroups firstKept offset groups <:+ groups := by
  induction groups generalizing offset with
  | nil => exact List.suffix_rfl
  | cons group groups ih =>
    by_cases h : firstKept < offset + group.length
    · rw [newestGroups_cons_of_lt h]
    · rw [newestGroups, if_neg h]
      exact (ih _).trans (List.suffix_cons group groups)

theorem length_tail_newestGroups {groups rest : List (List ContextMessage)}
    {first : List ContextMessage} (h : newestGroups firstKept offset groups = first :: rest) :
    firstKept + rest.flatten.length < offset + groups.flatten.length := by
  induction groups generalizing offset with
  | nil => cases h
  | cons group groups ih =>
    by_cases hkept : firstKept < offset + group.length
    · rw [newestGroups_cons_of_lt hkept] at h
      obtain ⟨rfl, rfl⟩ := List.cons.inj h
      rw [List.flatten_cons, List.length_append]
      omega
    · rw [newestGroups, if_neg hkept] at h
      have := ih h
      rw [List.flatten_cons, List.length_append]
      omega

/-- The groups with one of the newest `max_messages` messages. -/
def countedGroups (maxMessages : Option ℕ) (messages : List ContextMessage) : List (List ContextMessage) :=
  maxMessages.elim (providerGroups messages) fun maxMessages =>
    newestGroups (messages.length - maxMessages) 0 (providerGroups messages)

def boughtGroups (tokenCounter : Option (Text → ℤ)) (maxMessages maxTokens : Option ℕ)
    (messages : List ContextMessage) : List (List ContextMessage) :=
  maxTokens.elim (countedGroups maxMessages messages) fun maxTokens =>
    trimGroupsToTokens tokenCounter maxTokens (countedGroups maxMessages messages)

theorem trimWithProviderBoundaries_eq (maxMessages maxTokens : Option ℕ) (messages : List ContextMessage) :
    trimWithProviderBoundaries tokenCounter maxMessages maxTokens messages =
      (boughtGroups tokenCounter maxMessages maxTokens messages).flatten := rfl

theorem countedGroups_suffix (maxMessages : Option ℕ) (messages : List ContextMessage) :
    countedGroups maxMessages messages <:+ providerGroups messages := by
  cases maxMessages with
  | none => exact List.suffix_rfl
  | some maxMessages => exact newestGroups_suffix _ _ _

theorem boughtGroups_sublist (tokenCounter : Option (Text → ℤ)) (maxMessages maxTokens : Option ℕ)
    (messages : List ContextMessage) :
    (boughtGroups tokenCounter maxMessages maxTokens messages).Sublist (countedGroups maxMessages messages) := by
  cases maxTokens with
  | none => exact List.Sublist.refl _
  | some maxTokens => exact trimToBudget_sublist _ _ _ _

theorem isGroup_of_mem_boughtGroups {maxMessages maxTokens : Option ℕ} {messages group : List ContextMessage}
    (h : group ∈ boughtGroups tokenCounter maxMessages maxTokens messages) :
    IsGroup ContextMessage.isToolCall ContextMessage.isToolResult group :=
  isGroup_of_mem ((countedGroups_suffix maxMessages messages).subset
    ((boughtGroups_sublist tokenCounter maxMessages maxTokens messages).subset h))

theorem length_tail_boughtGroups {maxMessages : ℕ} {maxTokens : Option ℕ} {messages first : List ContextMessage}
    {rest : List (List ContextMessage)}
    (h : boughtGroups tokenCounter (some maxMessages) maxTokens messages = first :: rest) :
    rest.flatten.length < maxMessages := by
  have hsublist := boughtGroups_sublist tokenCounter (some maxMessages) maxTokens messages
  rw [h] at hsublist
  cases hcounted : countedGroups (some maxMessages) messages with
  | nil =>
    rw [hcounted] at hsublist
    cases hsublist
  | cons newest others =>
    rw [hcounted] at hsublist
    have htail := length_tail_newestGroups hcounted
    rw [flatten_providerGroups] at htail
    have hrest := hsublist.tail.flatten.length_le
    rw [List.tail_cons, List.tail_cons] at hrest
    omega

theorem boughtGroups_flatten (maxMessages maxTokens : Option ℕ) (messages : List ContextMessage) :
    boughtGroups tokenCounter maxMessages maxTokens (boughtGroups tokenCounter maxMessages maxTokens messages).flatten =
      providerGroups (boughtGroups tokenCounter maxMessages maxTokens messages).flatten := by
  have hgroups : ∀ group ∈ boughtGroups tokenCounter maxMessages maxTokens messages, _ :=
    fun group h => isGroup_of_mem_boughtGroups h
  have hcounted : countedGroups maxMessages (boughtGroups tokenCounter maxMessages maxTokens messages).flatten =
      providerGroups (boughtGroups tokenCounter maxMessages maxTokens messages).flatten := by
    cases maxMessages with
    | none => rfl
    | some maxMessages =>
      cases hbought : boughtGroups tokenCounter (some maxMessages) maxTokens messages with
      | nil =>
        rw [countedGroups, List.flatten_nil, Option.elim_some, providerGroups, groupRuns_nil]
        rfl
      | cons first rest =>
        rw [hbought] at hgroups
        obtain ⟨hfirst, hrest⟩ := List.forall_mem_cons.mp hgroups
        obtain ⟨more, others, -, heq⟩ := groupRuns_flatten_cons hfirst hrest
        have hlength := length_tail_boughtGroups hbought
        have hpos := List.length_pos_iff.mpr hfirst.ne_nil
        rw [countedGroups, Option.elim_some, providerGroups, heq, newestGroups_cons_of_lt]
        rw [List.flatten_cons, List.length_append, List.length_append]
        omega
  cases maxTokens with
  | none => exact hcounted
  | some maxTokens =>
    rw [boughtGroups, hcounted, Option.elim_some]
    refine trimToBudget_eq_self _ _ ?_
    rw [Affordable, totalCost_totalTokens, flatten_providerGroups]
    rcases affordable_trimToBudget isSystemGroup (totalTokens tokenCounter) maxTokens
      (countedGroups maxMessages messages) with h | h
    · exact Or.inl (by rwa [totalCost_totalTokens] at h)
    · refine Or.inr (forall_mem_groupRuns (fun group more hsystem => ?_) hgroups h)
      obtain ⟨first, members, rfl⟩ := List.exists_cons_of_ne_nil (l := group) (by rintro rfl; cases hsystem)
      exact hsystem

/-- What trimming by whole groups keeps of a history. -/
structure TrimsByGroups (tokenCounter : Option (Text → ℤ)) (maxMessages maxTokens : Option ℕ)
    (messages kept : List ContextMessage) : Prop where
  groups : ∃ groups : List (List ContextMessage), kept = groups.flatten ∧
    groups.Sublist (countedGroups maxMessages messages) ∧
    -- of what the count leaves, every system group is kept
    groups.filter isSystemGroup = (countedGroups maxMessages messages).filter isSystemGroup ∧
    ∀ limit ∈ maxTokens, totalTokens tokenCounter kept ≤
      max limit (totalTokens tokenCounter (groups.filter isSystemGroup).flatten)
  sublist : kept.Sublist messages
  idempotent : trimWithProviderBoundaries tokenCounter maxMessages maxTokens kept = kept

theorem trimsByGroups (maxMessages maxTokens : Option ℕ) (messages : List ContextMessage) :
    TrimsByGroups tokenCounter maxMessages maxTokens messages
      (trimWithProviderBoundaries tokenCounter maxMessages maxTokens messages) := by
  have hsublist := boughtGroups_sublist tokenCounter maxMessages maxTokens messages
  refine ⟨⟨boughtGroups tokenCounter maxMessages maxTokens messages, rfl, hsublist, ?_, ?_⟩, ?_, ?_⟩
  · cases maxTokens with
    | none => rfl
    | some limit => exact filter_trimToBudget _ _ _ _
  · rintro limit rfl
    have h := (affordable_trimToBudget isSystemGroup (totalTokens tokenCounter) limit
      (countedGroups maxMessages messages)).totalCost_le
    rwa [totalCost_totalTokens, totalCost_totalTokens] at h
  · have h := (hsublist.trans (countedGroups_suffix maxMessages messages).sublist).flatten
    rwa [flatten_providerGroups] at h
  · rw [trimWithProviderBoundaries_eq, trimWithProviderBoundaries_eq, boughtGroups_flatten, flatten_providerGroups]

/-! ### Spans -/

theorem map_group_spansFrom (start : ℕ) (groups : List (List ContextMessage)) :
    (spansFrom start groups).map Span.group = groups := by
  induction groups generalizing start with
  | nil => rfl
  | cons group groups ih => rw [spansFrom, List.map_cons, ih]

theorem flatMap_group_spansFrom (start : ℕ) (groups : List (List ContextMessage)) :
    (spansFrom start groups).flatMap Span.group = groups.flatten := by
  rw [List.flatMap_def, map_group_spansFrom]

variable {span : Span}

variable {groups : List (List ContextMessage)}

theorem bounds_of_mem_spansFrom {start : ℕ}
    (h : span ∈ spansFrom start groups) :
    start ≤ span.start ∧ span.start + span.group.length ≤ start + groups.flatten.length := by
  induction groups generalizing start with
  | nil => cases h
  | cons group groups ih =>
    rw [List.flatten_cons, List.length_append]
    rcases List.mem_cons.mp h with rfl | h
    · dsimp only
      omega
    · have := ih h
      omega

theorem nodup_spansFrom (h : ∀ group ∈ groups, group ≠ []) (start : ℕ) :
    ((spansFrom start groups).map Span.start).Nodup := by
  induction groups generalizing start with
  | nil => exact List.nodup_nil
  | cons group groups ih =>
    obtain ⟨hgroup, hgroups⟩ := List.forall_mem_cons.mp h
    rw [spansFrom, List.map_cons]
    refine List.nodup_cons.mpr ⟨fun hmem => ?_, ih hgroups _⟩
    obtain ⟨span, hspan, heq⟩ := List.mem_map.mp hmem
    have hpos := List.length_pos_iff.mpr hgroup
    have := (bounds_of_mem_spansFrom hspan).1
    dsimp only at heq
    omega

def spansOf (messages : List ContextMessage) : List Span := spansFrom 0 (providerGroups messages)

variable {messages : List ContextMessage}

theorem group_of_mem_spansOf (h : span ∈ spansOf messages) :
    span.group ∈ providerGroups messages := by
  have := List.mem_map_of_mem (f := Span.group) h
  rwa [spansOf, map_group_spansFrom] at this

theorem flatMap_group_spansOf (messages : List ContextMessage) :
    (spansOf messages).flatMap Span.group = messages := by
  rw [spansOf, flatMap_group_spansFrom, flatten_providerGroups]

theorem nodup_spansOf (messages : List ContextMessage) : ((spansOf messages).map Span.start).Nodup :=
  nodup_spansFrom (fun _ hgroup => (isGroup_of_mem hgroup).ne_nil) 0

theorem totalTokens_flatMap (spans : List Span) :
    totalTokens tokenCounter (spans.flatMap Span.group) =
      totalCost (fun span => totalTokens tokenCounter span.group) spans := by
  rw [List.flatMap_def, ← totalCost_totalTokens, totalCost, totalCost, List.map_map]
  rfl

theorem length_flatMap_group (spans : List Span) :
    (spans.flatMap Span.group).length = totalCost (fun span => span.group.length) spans := List.length_flatMap

namespace SalienceEviction

variable {B : Builtins} {eviction : SalienceEviction}

/-! ### Selection by rank -/

attribute [local grind =] select

theorem select_sublist (count : ℕ) (remaining : Option ℤ) (spans : List Span) :
    (eviction.select count remaining spans).Sublist spans := by
  induction spans generalizing count remaining with
  | nil => exact List.Sublist.slnil
  | cons span spans ih =>
    rw [select]
    split
    · exact (ih _ _).cons span
    · split
      · exact (ih _ _).cons span
      · exact (ih _ _).cons_cons span

theorem length_select {count : ℕ} (h : count ≤ eviction.maxMessages) (remaining : Option ℤ) (spans : List Span) :
    count + totalCost (fun span => span.group.length) (eviction.select count remaining spans) ≤
      eviction.maxMessages := by
  induction spans generalizing count remaining with
  | nil => exact h
  | cons span spans ih =>
    rw [select]
    split
    · exact ih h _
    case isFalse hcount =>
      split
      · exact ih h _
      · have := ih (not_lt.mp hcount) (remaining.map fun remaining => remaining - eviction.cost span)
        rw [totalCost_cons]
        omega

theorem select_charged {count : ℕ} {remaining : ℤ} {spans before after : List Span}
    (h : eviction.select count (some remaining) spans = before ++ span :: after) (hspan : isExempt span = false) :
    (totalCost eviction.cost before + eviction.cost span : ℤ) ≤ remaining := by
  induction spans generalizing count remaining before with
  | nil => simp [select] at h
  | cons first spans ih =>
    rw [select] at h
    split at h
    · exact ih h
    · split at h
      case isTrue => exact ih h
      case isFalse hfits =>
        cases before with
        | nil =>
          obtain ⟨rfl, -⟩ := List.cons.inj h
          rw [Option.any_some, hspan] at hfits
          simpa using hfits
        | cons kept before =>
          obtain ⟨rfl, hafter⟩ := List.cons.inj h
          have := ih hafter
          dsimp only at this
          rw [totalCost_cons]
          push_cast
          omega

theorem affordable_select {spans : List Span} (h : spans.Pairwise fun a b => isExempt b = true → isExempt a = true)
    (count : ℕ) (remaining : ℤ) :
    (totalCost eviction.cost (eviction.select count (some remaining) spans) : ℤ) ≤ remaining ∨
      ∀ span ∈ eviction.select count (some remaining) spans, isExempt span = true := by
  induction spans generalizing count remaining with
  | nil => exact Or.inr (fun _ h => by cases h)
  | cons span spans ih =>
    obtain ⟨hspan, hspans⟩ := List.pairwise_cons.mp h
    rw [select]
    split
    · exact ih hspans _ _
    · split
      case isTrue => exact ih hspans _ _
      case isFalse hfits =>
        have hrest := ih hspans (count + span.group.length) (remaining - eviction.cost span)
        rw [Option.map_some, totalCost_cons, List.forall_mem_cons]
        push_cast
        cases hexempt : isExempt span with
        | true => exact hrest.imp (fun h => by omega) fun h => ⟨rfl, h⟩
        | false =>
          rw [Option.any_some, hexempt] at hfits
          have hcost : (eviction.cost span : ℤ) ≤ remaining := by simpa using hfits
          left
          rcases hrest with h | h
          · omega
          · have hnone : eviction.select (count + span.group.length) (some (remaining - eviction.cost span)) spans = [] :=
              List.eq_nil_iff_forall_not_mem.mpr fun other hother => by
                have := hspan other ((select_sublist _ _ _).subset hother) (h other hother)
                rw [hexempt] at this
                cases this
            rw [hnone]
            simpa using hcost

theorem select_eq_self {count : ℕ} {remaining : Option ℤ} {spans : List Span}
    (hcount : count + totalCost (fun span => span.group.length) spans ≤ eviction.maxMessages)
    (hcost : ∀ limit ∈ remaining, (totalCost eviction.cost spans : ℤ) ≤ limit ∨ ∀ span ∈ spans, isExempt span = true) :
    eviction.select count remaining spans = spans := by
  induction spans generalizing count remaining with
  | nil => rfl
  | cons span spans ih =>
    rw [totalCost_cons] at hcount
    rw [select, if_neg (by omega), if_neg, ih (by omega)]
    · rintro limit hlimit
      obtain ⟨before, hbefore, rfl⟩ := Option.map_eq_some_iff.mp hlimit
      rcases hcost before hbefore with h | h
      · left
        rw [totalCost_cons] at h
        push_cast at h
        omega
      · exact Or.inr fun other hother => h other (List.mem_cons_of_mem _ hother)
    · rw [Bool.and_eq_true]
      rintro ⟨hover, hexempt⟩
      obtain ⟨limit, hlimit, hlt⟩ := (Option.any_eq_true _ _).mp hover
      rcases hcost limit hlimit with h | h
      · rw [totalCost_cons] at h
        push_cast at h
        have := of_decide_eq_true hlt
        omega
      · rw [h span List.mem_cons_self] at hexempt
        cases hexempt

/-! ### Ranks -/

theorem scored_of_mapM {α : Type} {score : α → Option ℚ} {items : List α} {scored : List (ℚ × α)}
    (h : (items.mapM fun item => (score item).map fun value => (value, item)) = some scored) :
    scored.map Prod.snd = items ∧ ∀ entry ∈ scored, score entry.2 = some entry.1 := by
  induction mapM_eq_some_iff.mp h with
  | nil => exact ⟨rfl, fun _ h => by cases h⟩
  | cons hitem hitems ih =>
    obtain ⟨value, hvalue, rfl⟩ := Option.map_eq_some_iff.mp hitem
    obtain ⟨hmap, hscores⟩ := ih (mapM_eq_some_iff.mpr hitems)
    exact ⟨by rw [List.map_cons, hmap], List.forall_mem_cons.mpr ⟨hvalue, hscores⟩⟩

variable {ranked : List Span}

theorem ranked_perm (h : eviction.ranked B messages = some ranked) : ranked.Perm (spansOf messages) := by
  obtain ⟨scored, hscored, rfl⟩ := Option.map_eq_some_iff.mp h
  rw [spansOf, ← (scored_of_mapM hscored).1]
  exact (List.perm_insertionSort RanksBefore scored).map Prod.snd

theorem exists_baseScore {total : ℕ} {best : ℚ} (h : eviction.spanScore B total span = some best)
    {message : ContextMessage} (hmessage : message ∈ span.group) :
    ∃ base, eviction.baseScore B message = some base := by
  obtain ⟨scores, hscores, -⟩ := Option.bind_eq_some_iff.mp h
  obtain ⟨i, hi⟩ := List.mem_iff_getElem?.mp hmessage
  have hentry : (message, i) ∈ span.group.zipIdx := List.mem_zipIdx_iff_getElem?.mpr hi
  obtain ⟨score, -, heq⟩ := exists_of_mapM_eq_some hscores hentry
  obtain ⟨base, hbase, -⟩ := Option.map_eq_some_iff.mp heq
  exact ⟨base, hbase⟩

theorem exists_spanScore (hgroup : span.group ≠ [])
    (h : ∀ message ∈ span.group, ∃ base, eviction.baseScore B message = some base) (total : ℕ) :
    ∃ best, eviction.spanScore B total span = some best := by
  obtain ⟨scores, hscores⟩ := exists_mapM_eq_some (l := span.group.zipIdx)
    (f := fun entry => eviction.score B entry.1 (span.start + entry.2) total) fun entry hentry => by
      obtain ⟨base, hbase⟩ := h entry.1 (List.fst_mem_of_mem_zipIdx hentry)
      exact ⟨_, by rw [score, hbase, Option.map_some]⟩
  have hlength : scores ≠ [] := by
    rintro rfl
    obtain ⟨first, members, heq⟩ := List.exists_cons_of_ne_nil hgroup
    rw [heq] at hscores
    obtain ⟨_, hnone, -⟩ := exists_of_mapM_eq_some hscores (List.mem_cons_self (a := (first, 0)))
    cases hnone
  obtain ⟨best, hbest⟩ := Option.isSome_iff_exists.mp (List.isSome_max?_of_ne_nil hlength)
  exact ⟨best, by rw [spanScore, hscores, Option.bind_some, hbest]⟩

theorem bounds_of_spanScore {total : ℕ} {best : ℚ}
    (hspan : span.start + span.group.length ≤ total) (h : eviction.spanScore B total span = some best) :
    (∀ message ∈ span.group, ∀ base, eviction.baseScore B message = some base → base ≤ best) ∧
      ∃ message ∈ span.group, ∃ base, eviction.baseScore B message = some base ∧ best < base + 1 := by
  obtain ⟨scores, hscores, hbest⟩ := Option.bind_eq_some_iff.mp h
  obtain ⟨hmem, hmax⟩ := List.max?_eq_some_iff.mp hbest
  constructor
  · intro message hmessage base hbase
    obtain ⟨i, hi⟩ := List.mem_iff_getElem?.mp hmessage
    have hentry : (message, i) ∈ span.group.zipIdx := List.mem_zipIdx_iff_getElem?.mpr hi
    obtain ⟨score, hscore, heq⟩ := exists_of_mapM_eq_some hscores hentry
    rw [SalienceEviction.score, hbase, Option.map_some] at heq
    have hrecency : (0 : ℚ) ≤ ((span.start + i : ℕ) : ℚ) / (max 1 total : ℕ) := by positivity
    have := hmax score hscore
    rw [← Option.some.inj heq] at this
    linarith
  · obtain ⟨⟨message, i⟩, hentry, heq⟩ := (mem_of_mapM_eq_some hscores best).mp hmem
    obtain ⟨base, hbase, rfl⟩ := Option.map_eq_some_iff.mp heq
    have hget := List.mem_zipIdx_iff_getElem?.mp hentry
    refine ⟨message, List.mem_of_getElem? hget, base, hbase, ?_⟩
    obtain ⟨hi, -⟩ := List.getElem?_eq_some_iff.mp hget
    have htotal : (0 : ℚ) < (max 1 total : ℕ) := by positivity
    have : ((span.start + i : ℕ) : ℚ) / (max 1 total : ℕ) < 1 := by
      rw [div_lt_one htotal]
      exact_mod_cast (show span.start + i < max 1 total by dsimp only at hi; omega)
    linarith

def SystemOutranks (B : Builtins) (eviction : SalienceEviction) (messages : List ContextMessage) : Prop :=
  ∀ system ∈ messages, system.isSystem = true → ∀ other ∈ messages, other.isSystem = false →
    ∀ x ∈ eviction.baseScore B system, ∀ y ∈ eviction.baseScore B other, y + 1 ≤ x

instance : Std.Total RanksBefore where
  total a b := by
    unfold RanksBefore
    rcases lt_trichotomy a.1 b.1 with h | h | h
    · exact Or.inr (Or.inl h)
    · rcases le_total a.2.start b.2.start with hstart | hstart
      · exact Or.inl (Or.inr ⟨h, hstart⟩)
      · exact Or.inr (Or.inr ⟨h.symm, hstart⟩)
    · exact Or.inl (Or.inl h)

instance : IsTrans (ℚ × Span) RanksBefore where
  trans a b c hab hbc := by
    rcases hab with hab | ⟨hab, hstart⟩
    · rcases hbc with hbc | ⟨hbc, -⟩
      · exact Or.inl (hbc.trans hab)
      · exact Or.inl (hbc ▸ hab)
    · rcases hbc with hbc | ⟨hbc, hstart'⟩
      · exact Or.inl (hab ▸ hbc)
      · exact Or.inr ⟨hab.trans hbc, hstart.trans hstart'⟩

theorem RanksBefore.score_le {a b : ℚ × Span} (h : RanksBefore a b) : b.1 ≤ a.1 := by
  rcases h with h | ⟨h, -⟩
  · exact h.le
  · exact h.ge

theorem ranked_pairwise
    (hsystem : SystemOutranks B eviction messages) (h : eviction.ranked B messages = some ranked) :
    ranked.Pairwise fun a b => isExempt b = true → isExempt a = true := by
  obtain ⟨scored, hscored, rfl⟩ := Option.map_eq_some_iff.mp h
  obtain ⟨hspans, hscores⟩ := scored_of_mapM hscored
  have hmem : ∀ entry ∈ scored, ∀ message ∈ entry.2.group, message ∈ messages := by
    intro entry hentry message hmessage
    have hspan : entry.2 ∈ spansOf messages := by
      rw [spansOf, ← hspans]
      exact List.mem_map_of_mem hentry
    rw [← flatMap_group_spansOf messages]
    exact List.mem_flatMap.mpr ⟨entry.2, hspan, hmessage⟩
  have hbounds : ∀ entry ∈ scored, entry.2.start + entry.2.group.length ≤ messages.length := by
    intro entry hentry
    have hspan : entry.2 ∈ spansFrom 0 (providerGroups messages) := by
      rw [← hspans]
      exact List.mem_map_of_mem hentry
    have := (bounds_of_mem_spansFrom hspan).2
    rwa [flatten_providerGroups, Nat.zero_add] at this
  rw [List.pairwise_map]
  refine (List.pairwise_insertionSort RanksBefore scored).imp_of_mem fun {a b} ha hb hrank hexempt => ?_
  rw [List.mem_insertionSort] at ha hb
  by_contra hother
  have hnone : ∀ message ∈ a.2.group, message.isSystem = false := by simpa [isExempt] using hother
  obtain ⟨system, hmessage, hissystem⟩ := List.any_eq_true.mp hexempt
  obtain ⟨other, hother, y, hy, hlt⟩ := (bounds_of_spanScore (hbounds a ha) (hscores a ha)).2
  obtain ⟨x, hx⟩ := exists_baseScore (hscores b hb) hmessage
  have hle := (bounds_of_spanScore (hbounds b hb) (hscores b hb)).1 system hmessage x hx
  have := hsystem system (hmem b hb system hmessage) hissystem other (hmem a ha other hother) (hnone other hother) x hx y hy
  have := hrank.score_le
  linarith

/-! ### What is kept -/

def chosen (B : Builtins) (eviction : SalienceEviction) (messages : List ContextMessage) : Option (List Span) :=
  (eviction.ranked B messages).map (eviction.select 0 (eviction.maxTokens.map Nat.cast))

def keptSpans (messages : List ContextMessage) (chosen : List Span) : List Span :=
  (spansOf messages).filter fun span => decide (span.start ∈ chosen.map Span.start)

theorem compact_eq (messages : List ContextMessage) :
    eviction.compact B messages =
      (eviction.chosen B messages).map fun chosen => (keptSpans messages chosen).flatMap Span.group := by
  rw [chosen, Option.map_map]
  rfl

variable {chosen : List Span}

theorem chosen_subperm (h : eviction.chosen B messages = some chosen) : chosen.Subperm (spansOf messages) := by
  obtain ⟨ranked, hranked, rfl⟩ := Option.map_eq_some_iff.mp h
  exact (select_sublist _ _ _).subperm.trans (ranked_perm hranked).subperm

theorem keptSpans_perm (h : chosen.Subperm (spansOf messages)) : (keptSpans messages chosen).Perm chosen := by
  have hnodup := nodup_spansOf messages
  have hchosen : chosen.Nodup := by
    obtain ⟨spans, hperm, hsublist⟩ := h
    exact hperm.nodup_iff.mp (hsublist.nodup hnodup.of_map)
  unfold keptSpans
  refine (List.perm_ext_iff_of_nodup (hnodup.of_map.filter _) hchosen).mpr fun span => ?_
  rw [List.mem_filter, decide_eq_true_iff]
  constructor
  · rintro ⟨hspan, hstart⟩
    obtain ⟨other, hother, heq⟩ := List.mem_map.mp hstart
    rwa [← List.inj_on_of_nodup_map hnodup (h.subset hother) hspan heq]
  · exact fun hspan => ⟨h.subset hspan, List.mem_map_of_mem hspan⟩

theorem keptSpans_sublist (messages : List ContextMessage) (chosen : List Span) :
    ((keptSpans messages chosen).flatMap Span.group).Sublist messages := by
  have h := (List.filter_sublist (l := spansOf messages)
    (p := fun span => decide (span.start ∈ chosen.map Span.start))).flatMap Span.group
  rwa [flatMap_group_spansOf] at h

theorem length_keptSpans (h : eviction.chosen B messages = some chosen) :
    ((keptSpans messages chosen).flatMap Span.group).length ≤ eviction.maxMessages := by
  have hperm := keptSpans_perm (chosen_subperm h)
  obtain ⟨ranked, hranked, rfl⟩ := Option.map_eq_some_iff.mp h
  rw [length_flatMap_group, totalCost_perm _ hperm]
  have := length_select (Nat.zero_le eviction.maxMessages) (eviction.maxTokens.map Nat.cast) ranked
  rwa [Nat.zero_add] at this

theorem affordable_keptSpans {limit : ℕ}
    (h : eviction.chosen B messages = some chosen) (hlimit : eviction.maxTokens = some limit)
    (hsystem : SystemOutranks B eviction messages) :
    Affordable isExempt eviction.cost limit (keptSpans messages chosen) := by
  have hperm := keptSpans_perm (chosen_subperm h)
  obtain ⟨ranked, hranked, rfl⟩ := Option.map_eq_some_iff.mp h
  rw [Affordable, totalCost_perm _ hperm]
  rw [hlimit, Option.map_some] at hperm ⊢
  rcases affordable_select (ranked_pairwise hsystem hranked) 0 (limit : ℤ) with hle | hall
  · exact Or.inl (Int.ofNat_le.mp hle)
  · exact Or.inr fun span hspan => hall span (hperm.mem_iff.mp hspan)

theorem compact_kept {kept : List ContextMessage}
    (hbase : ∀ message ∈ kept, ∃ base, eviction.baseScore B message = some base)
    (hlength : kept.length ≤ eviction.maxMessages)
    (hcost : ∀ limit ∈ eviction.maxTokens, Affordable isExempt eviction.cost limit (spansOf kept)) :
    eviction.compact B kept = some kept := by
  obtain ⟨scored, hscored⟩ := exists_mapM_eq_some (l := spansOf kept)
    (f := fun span => (eviction.spanScore B kept.length span).map fun score => (score, span)) fun span hspan => by
      have hgroup := group_of_mem_spansOf hspan
      obtain ⟨best, hbest⟩ := exists_spanScore (isGroup_of_mem hgroup).ne_nil (fun message hmessage => hbase message
        (by rw [← flatMap_group_spansOf kept]; exact List.mem_flatMap.mpr ⟨span, hspan, hmessage⟩)) kept.length
      exact ⟨(best, span), by rw [hbest, Option.map_some]⟩
  have hranked : eviction.ranked B kept = some ((scored.insertionSort RanksBefore).map Prod.snd) :=
    congrArg (Option.map _) hscored
  generalize (scored.insertionSort RanksBefore).map Prod.snd = ranked at hranked
  have hperm := ranked_perm hranked
  have hselect : eviction.select 0 (eviction.maxTokens.map Nat.cast) ranked = ranked := by
    refine select_eq_self ?_ ?_
    · rw [totalCost_perm _ hperm, ← length_flatMap_group, flatMap_group_spansOf]
      omega
    · intro limit hlimit
      obtain ⟨tokens, htokens, rfl⟩ := Option.map_eq_some_iff.mp hlimit
      rcases hcost tokens htokens with h | h
      · exact Or.inl (Int.ofNat_le.mpr (by rwa [totalCost_perm _ hperm]))
      · exact Or.inr fun span hspan => h span (hperm.mem_iff.mp hspan)
  have hall : keptSpans kept ranked = spansOf kept :=
    List.filter_eq_self.mpr fun span hspan =>
      decide_eq_true (List.mem_map_of_mem (hperm.mem_iff.mpr hspan))
  rw [compact_eq, chosen, hranked, Option.map_some, Option.map_some, hselect, hall, flatMap_group_spansOf]

theorem affordable_spansOf {limit : ℕ}
    (h : Affordable isExempt eviction.cost limit (keptSpans messages chosen)) :
    Affordable isExempt eviction.cost limit (spansOf ((keptSpans messages chosen).flatMap Span.group)) := by
  rcases h with h | h
  · left
    change totalCost (fun span : Span => totalTokens eviction.tokenCounter span.group) _ ≤ _
    rw [← totalTokens_flatMap, flatMap_group_spansOf, totalTokens_flatMap]
    exact h
  · right
    intro span hspan
    have hgroup := group_of_mem_spansOf hspan
    rw [List.flatMap_def] at hgroup
    refine forall_mem_groupRuns (P := fun group => group.any ContextMessage.isSystem = true)
      (fun group more hsystem => by rw [List.any_append, hsystem, Bool.true_or]) ?_ ?_ span.group hgroup
    · intro group hmem
      obtain ⟨other, hother, rfl⟩ := List.mem_map.mp hmem
      exact isGroup_of_mem (group_of_mem_spansOf (List.mem_of_mem_filter hother))
    · intro group hmem
      obtain ⟨other, hother, rfl⟩ := List.mem_map.mp hmem
      exact h other hother

theorem exists_baseScore_of_ranked
    (h : eviction.ranked B messages = some ranked) {message : ContextMessage} (hmessage : message ∈ messages) :
    ∃ base, eviction.baseScore B message = some base := by
  obtain ⟨scored, hscored, rfl⟩ := Option.map_eq_some_iff.mp h
  rw [← flatMap_group_spansOf messages] at hmessage
  obtain ⟨span, hspan, hmember⟩ := List.mem_flatMap.mp hmessage
  obtain ⟨entry, -, heq⟩ := exists_of_mapM_eq_some hscored hspan
  obtain ⟨best, hbest, -⟩ := Option.map_eq_some_iff.mp heq
  exact exists_baseScore hbest hmember

structure Evicts (B : Builtins) (eviction : SalienceEviction) (messages kept : List ContextMessage) : Prop where
  sublist : kept.Sublist messages
  count : kept.length ≤ eviction.maxMessages
  spans : ∃ chosen : List Span, eviction.chosen B messages = some chosen ∧
    kept = (keptSpans messages chosen).flatMap Span.group ∧ ∀ limit ∈ eviction.maxTokens,
      -- a group without a system message fits with all groups that are kept before it
      (∀ before span after, chosen = before ++ span :: after → isExempt span = false →
        totalCost eviction.cost before + eviction.cost span ≤ limit) ∧
      (SystemOutranks B eviction messages → totalTokens eviction.tokenCounter kept ≤
        max limit (totalCost eviction.cost ((keptSpans messages chosen).filter isExempt)))
  idempotent : SystemOutranks B eviction messages → eviction.compact B kept = some kept

theorem evicts {messages kept : List ContextMessage} (h : eviction.compact B messages = some kept) :
    Evicts B eviction messages kept := by
  rw [compact_eq] at h
  obtain ⟨chosen, hchosen, rfl⟩ := Option.map_eq_some_iff.mp h
  have hsublist := keptSpans_sublist messages chosen
  have hlength := length_keptSpans hchosen
  refine ⟨hsublist, hlength, ⟨chosen, hchosen, rfl, fun limit hlimit => ⟨?_, fun hsystem => ?_⟩⟩, fun hsystem => ?_⟩
  · rintro before span after rfl hspan
    obtain ⟨ranked, -, hselect⟩ := Option.map_eq_some_iff.mp hchosen
    rw [Option.mem_def.mp hlimit, Option.map_some] at hselect
    exact_mod_cast select_charged hselect hspan
  · rw [totalTokens_flatMap]
    exact (affordable_keptSpans hchosen hlimit hsystem).totalCost_le
  · obtain ⟨ranked, hranked, -⟩ := Option.map_eq_some_iff.mp hchosen
    exact compact_kept (fun message hmessage => exists_baseScore_of_ranked hranked (hsublist.subset hmessage)) hlength
      fun limit hlimit => affordable_spansOf (affordable_keptSpans hchosen hlimit hsystem)

end SalienceEviction

/-- What the trimming strategies keep is within their budgets but for the system part, and is kept again. -/
theorem budgets_hold (B : Builtins) (tokenCounter : Option (Text → ℤ)) (messages : List ContextMessage) :
    (∀ maxTokens preserveSystem, TrimsToTokenBudget tokenCounter maxTokens preserveSystem messages
      (trimToTokenBudget tokenCounter maxTokens preserveSystem messages)) ∧
    (∀ maxMessages maxTokens, TrimsByGroups tokenCounter maxMessages maxTokens messages
      (trimWithProviderBoundaries tokenCounter maxMessages maxTokens messages)) ∧
    ∀ (eviction : SalienceEviction) (kept : List ContextMessage), eviction.compact B messages = some kept →
      eviction.Evicts B messages kept :=
  ⟨fun maxTokens preserveSystem => trimsToTokenBudget maxTokens preserveSystem messages,
    fun maxMessages maxTokens => trimsByGroups maxMessages maxTokens messages,
    fun _ _ h => SalienceEviction.evicts h⟩

def characterEviction : SalienceEviction where
  maxMessages := 2
  maxTokens := some 8
  tokenCounter := some fun text => text.length
  floatOf
    | .int value => some value
    | .str text => if text = lit "10000.4" then some (100004 / 10) else none
    | _ => none
  lower text := text

def systemMessage : ContextMessage := { role := lit "system", content := lit "be brief" }

def salientMessage (salience : Json) : ContextMessage where
  role := lit "user"
  content := lit "hi"
  metadata := .obj [(lit "salience", salience)]

theorem compact_salient :
    characterEviction.compact plainBuiltins [systemMessage, salientMessage (.int 1)] = some [systemMessage] := by
  rw [SalienceEviction.compact, SalienceEviction.ranked, providerGroups, groupRuns_of_none _ _ (by decide)]
  with_unfolding_all rfl

theorem budgets_hold_salient :
    characterEviction.Evicts plainBuiltins [systemMessage, salientMessage (.int 1)] [systemMessage] :=
  (budgets_hold plainBuiltins none [systemMessage, salientMessage (.int 1)]).2.2 characterEviction _ compact_salient

/-- A count takes a system message; a salient message is kept in front of a system message that leaves no room for it;
and what is kept with it may rank the other way once other messages are gone. -/
theorem budgets_exceeded :
    systemMessages (trimWithProviderBoundaries none (some 1) none [systemMessage, salientMessage (.int 1)]) = [] ∧
    characterEviction.compact plainBuiltins
        [salientMessage (.str (lit "10000.4")), systemMessage, salientMessage (.int 0)] =
      some [salientMessage (.str (lit "10000.4")), systemMessage] ∧
    characterEviction.compact plainBuiltins [salientMessage (.str (lit "10000.4")), systemMessage] =
      some [systemMessage] := by
  refine ⟨?_, ?_, ?_⟩
  · rw [trimWithProviderBoundaries, providerGroups, groupRuns_of_none _ _ (by decide)]
    rfl
  · rw [SalienceEviction.compact, SalienceEviction.ranked, providerGroups, groupRuns_of_none _ _ (by decide)]
    with_unfolding_all rfl
  · rw [SalienceEviction.compact, SalienceEviction.ranked, providerGroups, groupRuns_of_none _ _ (by decide)]
    with_unfolding_all rfl

end VidbyteSdk.Middleware.Compaction
