import VidbyteSdk.Lib.CallPairs
import VidbyteSdk.Providers.ToolExchanges

/-!
# Where the task stands in a rewritten history

`_apply_before_model_call_transform` of `agents/runtime.py`, over any messages. Middleware may replace the history
of a request; the task then goes in front of the first message of the run that is left, and this is between two
exchanges unless that message is an inner one of the new history: a result whose call was rewritten, or dropped into
another exchange. `Kept` says which messages are left, and `KeepsOpeners` when the first of them is no inner one.
-/

namespace VidbyteSdk.Agents.Loop

open VidbyteSdk.Lib

/-! ### The transform -/

structure CallOptions (M : Type) where
  system : Option String
  messages : List M
  promptIndex : Option ℕ
  deriving DecidableEq

structure MiddlewareTransform (M : Type) where
  system : Option String := none
  providerMessages : Option (List M) := none

section Transform

variable {M : Type} [DecidableEq M]

/-- `message in own and message not in head` -/
def isKept (head own : List M) (message : M) : Bool := message ∈ own ∧ message ∉ head

/-- `_apply_before_model_call_transform` -/
def applyBeforeModelCallTransform (options : CallOptions M) :
    Option (MiddlewareTransform M) → CallOptions M
  | none => options
  | some transform =>
    let transformed := { options with system := transform.system.or options.system }
    match transform.providerMessages with
    | none => transformed
    | some messages =>
      let transformed := { transformed with messages := messages }
      match options.promptIndex with
      | none => transformed
      | some boundary =>
        let head := options.messages.take boundary
        if messages.take boundary = head then transformed
        else
          -- without a message of the run the provider places the task by shape
          { transformed with promptIndex := messages.findIdx? (isKept head (options.messages.drop boundary)) }

/-! ### What the task needs -/

variable {κ : Type} (callIds resultIds : M → List κ)

/-- The task of a rewritten request stands between two segments, where it stood if nothing in front of it has
changed, and else behind no message of the run but those that also stood in front of it. -/
structure KeepsTask (options : CallOptions M) (boundary : ℕ) (transformed : CallOptions M) : Prop where
  between : ∀ index, transformed.promptIndex = some index →
    index ≤ transformed.messages.length ∧ Between callIds resultIds transformed.messages index
  unchanged : transformed.messages.take boundary = options.messages.take boundary →
    transformed.promptIndex = some boundary
  moved : transformed.messages.take boundary ≠ options.messages.take boundary →
    ∀ index, transformed.promptIndex = some index → ∀ message ∈ transformed.messages.take index,
      message ∉ options.messages.drop boundary ∨ message ∈ options.messages.take boundary

/-- No inner message of an exchange is kept without a message of the run in front of it. -/
def KeepsOpeners (head own messages : List M) : Prop :=
  ∀ front message back, messages = front ++ message :: back → IsInner callIds resultIds front message →
    isKept head own message = true → ∃ earlier ∈ front, isKept head own earlier = true

variable {callIds resultIds}

theorem findIdx?_split {α : Type} {p : α → Bool} {items : List α} {index : ℕ} (h : items.findIdx? p = some index) :
    ∃ front item back, items = front ++ item :: back ∧ front.length = index ∧ p item = true ∧
      ∀ earlier ∈ front, p earlier = false := by
  obtain ⟨hlt, hp, hbefore⟩ := List.findIdx?_eq_some_iff_getElem.mp h
  refine ⟨items.take index, items[index], items.drop (index + 1), ?_, List.length_take_of_le (Nat.le_of_lt hlt), hp, ?_⟩
  · rw [List.getElem_cons_drop, List.take_append_drop]
  · intro earlier hearlier
    obtain ⟨j, hj, rfl⟩ := List.mem_take_iff_getElem.mp hearlier
    exact Bool.eq_false_iff.mpr (hbefore j (by omega))

theorem keepsOpeners_iff {head own front back : List M} {message : M} (hkept : isKept head own message = true)
    (hfirst : ∀ earlier ∈ front, isKept head own earlier = false) :
    KeepsOpeners callIds resultIds head own (front ++ message :: back) ↔ ¬ IsInner callIds resultIds front message := by
  constructor
  · intro h hinner
    obtain ⟨earlier, hearlier, hkeeps⟩ := h front message back rfl hinner hkept
    rw [hfirst earlier hearlier] at hkeeps
    cases hkeeps
  · intro hinner front' message' back' hsplit hinner' hkept'
    rcases List.append_eq_append_iff.mp hsplit with ⟨more, hfront, hback⟩ | ⟨more, hfront, hback⟩
    · cases more with
      | nil =>
        rw [List.append_nil] at hfront
        rw [List.nil_append, List.cons.injEq] at hback
        rw [hfront, ← hback.1] at hinner'
        exact absurd hinner' hinner
      | cons other more =>
        rw [List.cons_append, List.cons.injEq] at hback
        refine ⟨message, ?_, hkept⟩
        rw [hfront, hback.1]
        exact List.mem_append_right _ List.mem_cons_self
    · cases more with
      | nil =>
        rw [List.append_nil] at hfront
        rw [List.nil_append, List.cons.injEq] at hback
        rw [← hfront, hback.1] at hinner'
        exact absurd hinner' hinner
      | cons other more =>
        rw [List.cons_append, List.cons.injEq] at hback
        have hmem : message' ∈ front := by
          rw [hfront, hback.1]
          exact List.mem_append_right _ List.mem_cons_self
        rw [hfirst message' hmem] at hkept'
        cases hkept'

section Rewrite

variable {options : CallOptions M} {boundary : ℕ} {transform : MiddlewareTransform M} {segments : List (List M)}

theorem applyBeforeModelCallTransform_eq (hindex : options.promptIndex = some boundary) {messages : List M}
    (hnew : transform.providerMessages = some messages) :
    applyBeforeModelCallTransform options (some transform) =
      ⟨transform.system.or options.system, messages,
        if messages.take boundary = options.messages.take boundary then some boundary
        else messages.findIdx? (isKept (options.messages.take boundary) (options.messages.drop boundary))⟩ := by
  unfold applyBeforeModelCallTransform
  dsimp only
  rw [hnew, hindex]
  dsimp only
  split
  · rfl
  · rfl

theorem keepsTask_of_same (hindex : options.promptIndex = some boundary)
    (houtside : Between callIds resultIds options.messages boundary)
    (hnew : transform.providerMessages = some segments.flatten) (hpaired : Paired callIds resultIds segments)
    (hsame : segments.flatten.take boundary = options.messages.take boundary) :
    KeepsTask callIds resultIds options boundary (applyBeforeModelCallTransform options (some transform)) := by
  rw [applyBeforeModelCallTransform_eq hindex hnew, if_pos hsame]
  refine ⟨?_, fun _ => rfl, fun hne => absurd hsame hne⟩
  intro index hat
  have hbetween := houtside.of_take_eq hpaired hsame
  rw [Option.some.inj hat] at hbetween
  exact ⟨hbetween.le_length, hbetween⟩

theorem keepsTask_of_keepsOpeners (hindex : options.promptIndex = some boundary)
    (hnew : transform.providerMessages = some segments.flatten) (hpaired : Paired callIds resultIds segments)
    (hsame : segments.flatten.take boundary ≠ options.messages.take boundary)
    (hopeners : KeepsOpeners callIds resultIds (options.messages.take boundary) (options.messages.drop boundary)
      segments.flatten) :
    KeepsTask callIds resultIds options boundary (applyBeforeModelCallTransform options (some transform)) := by
  rw [applyBeforeModelCallTransform_eq hindex hnew, if_neg hsame]
  refine ⟨?_, fun heq => absurd heq hsame, ?_⟩
  · intro index hat
    obtain ⟨front, message, back, hsplit, rfl, hkept, hfirst⟩ := findIdx?_split hat
    rw [hsplit, keepsOpeners_iff hkept hfirst] at hopeners
    have hbetween := between_of_not_isInner hpaired hsplit hopeners
    rw [← hsplit] at hbetween
    exact ⟨hbetween.le_length, hbetween⟩
  · intro _ index hat earlier hearlier
    obtain ⟨front, message, back, hsplit, rfl, _, hfirst⟩ := findIdx?_split hat
    change earlier ∈ segments.flatten.take front.length at hearlier
    rw [hsplit, List.take_left] at hearlier
    have hnot := hfirst earlier hearlier
    rw [isKept, decide_eq_false_iff_not, not_and_or, not_not] at hnot
    exact hnot

theorem keepsOpeners_of_keepsTask (hindex : options.promptIndex = some boundary)
    (hnew : transform.providerMessages = some segments.flatten)
    (hsame : segments.flatten.take boundary ≠ options.messages.take boundary)
    (h : KeepsTask callIds resultIds options boundary (applyBeforeModelCallTransform options (some transform))) :
    KeepsOpeners callIds resultIds (options.messages.take boundary) (options.messages.drop boundary)
      segments.flatten := by
  rw [applyBeforeModelCallTransform_eq hindex hnew, if_neg hsame] at h
  cases hfind : segments.flatten.findIdx?
      (isKept (options.messages.take boundary) (options.messages.drop boundary)) with
  | none =>
    intro front message back hsplit _ hkept
    have hmem : message ∈ segments.flatten := by
      rw [hsplit]
      exact List.mem_append_right _ List.mem_cons_self
    rw [List.findIdx?_eq_none_iff.mp hfind message hmem] at hkept
    cases hkept
  | some index =>
    obtain ⟨front, message, back, hsplit, hlength, hkept, hfirst⟩ := findIdx?_split hfind
    have hbetween := (h.between index hfind).2
    rw [← hlength] at hbetween
    change Between callIds resultIds segments.flatten front.length at hbetween
    rw [hsplit] at hbetween
    rw [hsplit, keepsOpeners_iff hkept hfirst]
    exact not_isInner_of_between hbetween

/-- **When a rewritten history keeps the task outside the exchanges.** -/
theorem keepsTask_iff (hindex : options.promptIndex = some boundary)
    (houtside : Between callIds resultIds options.messages boundary)
    (hnew : transform.providerMessages = some segments.flatten) (hpaired : Paired callIds resultIds segments) :
    KeepsTask callIds resultIds options boundary (applyBeforeModelCallTransform options (some transform)) ↔
      segments.flatten.take boundary = options.messages.take boundary ∨
        KeepsOpeners callIds resultIds (options.messages.take boundary) (options.messages.drop boundary)
          segments.flatten := by
  constructor
  · intro h
    by_cases hsame : segments.flatten.take boundary = options.messages.take boundary
    · exact .inl hsame
    · exact .inr (keepsOpeners_of_keepsTask hindex hnew hsame h)
  · intro h
    by_cases hsame : segments.flatten.take boundary = options.messages.take boundary
    · exact keepsTask_of_same hindex houtside hnew hpaired hsame
    · exact keepsTask_of_keepsOpeners hindex hnew hpaired hsame (h.resolve_left hsame)

end Rewrite

end Transform

/-! ### Chats -/

section Chats

open Providers

def chatCallIds (message : Providers.Message) : List (Option String) :=
  if message.role = some .assistant then (message.toolCalls.getD []).map (·.id) else []

def chatResultIds (message : Providers.Message) : List (Option String) :=
  if message.role = some .tool then [message.toolCallId] else []

/-! ### A call that is cut -/

def callerTurn (text : String) : Providers.Message := { role := some .user, content := some (.text text) }

def readCall (arguments : String) : Providers.Message :=
  { role := some .assistant, toolCalls := some [⟨some "c1", some "read", some arguments⟩] }

def readResult : Providers.Message := formatOpenaiToolResult "read" "c1" "the log"

theorem paired_callerTurn (text : String) : PairedSegment chatCallIds chatResultIds [callerTurn text] := .single rfl rfl

theorem paired_readCall (arguments : String) :
    PairedSegment chatCallIds chatResultIds ([readCall arguments] ++ [readResult]) := by
  refine .exchange (List.cons_ne_nil _ _) ?_ ?_ (List.Perm.refl _)
  · rw [List.forall_mem_singleton]
    exact ⟨List.cons_ne_nil _ _, rfl⟩
  · rw [List.forall_mem_singleton]
    exact ⟨List.cons_ne_nil _ _, rfl⟩

/-- A caller's turn and an exchange of the run, with the boundary between them. -/
def logOptions : CallOptions Providers.Message where
  system := none
  messages := [callerTurn "An old question.", readCall "every argument", readResult]
  promptIndex := some 1

def summaryTransform (arguments : String) : MiddlewareTransform Providers.Message where
  providerMessages := some [callerTurn "A summary.", readCall arguments, readResult]

theorem between_logOptions : Between chatCallIds chatResultIds logOptions.messages 1 :=
  ⟨[_], [_], List.forall_mem_singleton.mpr (paired_callerTurn "An old question."),
    List.forall_mem_singleton.mpr (paired_readCall "every argument"), rfl, rfl⟩

theorem paired_summary (arguments : String) :
    Paired chatCallIds chatResultIds [[callerTurn "A summary."], [readCall arguments] ++ [readResult]] :=
  List.forall_mem_cons.mpr ⟨paired_callerTurn _, List.forall_mem_singleton.mpr (paired_readCall arguments)⟩

theorem keepsTask_iff_uncut : KeepsTask chatCallIds chatResultIds logOptions 1
    (applyBeforeModelCallTransform logOptions (some (summaryTransform "every argument"))) := by
  refine (keepsTask_iff rfl between_logOptions rfl (paired_summary "every argument")).mpr (.inr ?_)
  have hfirst : ∀ earlier ∈ [callerTurn "A summary."], isKept (logOptions.messages.take 1)
      (logOptions.messages.drop 1) earlier = false := by decide
  have hinner : ¬ IsInner chatCallIds chatResultIds [callerTurn "A summary."] (readCall "every argument") := by
    rintro (hresult | ⟨_, previous, hprevious, hcall⟩)
    · exact hresult rfl
    · rw [← Option.some.inj hprevious] at hcall
      exact hcall rfl
  have hkept : isKept (logOptions.messages.take 1) (logOptions.messages.drop 1) (readCall "every argument") = true := by
    decide
  exact (keepsOpeners_iff hkept hfirst).mpr hinner

theorem cut_call_splits_exchange :
    logOptions.promptIndex = some 1 ∧ Between chatCallIds chatResultIds logOptions.messages 1 ∧
      Paired chatCallIds chatResultIds [[callerTurn "A summary."], [readCall "cut"] ++ [readResult]] ∧
      (applyBeforeModelCallTransform logOptions (some (summaryTransform "cut"))).promptIndex = some 2 ∧
      ¬ KeepsTask chatCallIds chatResultIds logOptions 1
        (applyBeforeModelCallTransform logOptions (some (summaryTransform "cut"))) := by
  have hindex : (applyBeforeModelCallTransform logOptions (some (summaryTransform "cut"))).promptIndex = some 2 := by
    decide
  refine ⟨rfl, between_logOptions, paired_summary "cut", hindex, fun h => ?_⟩
  have hbetween : Between chatCallIds chatResultIds ([callerTurn "A summary.", readCall "cut"] ++ readResult :: [])
      [callerTurn "A summary.", readCall "cut"].length := (h.between 2 hindex).2
  exact not_isInner_of_between hbetween (.inl (List.cons_ne_nil _ _))

end Chats

end VidbyteSdk.Agents.Loop
