import VidbyteSdk.Lib.Places
import VidbyteSdk.Trace.TraceRuns

/-!
# The backend sees the trace forest

The invariant ties the stack of the code to the open spans of the forest. Opening a span keeps it by
`providerParent_eq`, which compares the walk down the stack with the way up the forest.
-/

namespace VidbyteSdk.Trace

open Lib

variable {controller : TraceController} {w : World}

/-- What the code keeps is what the forest says. -/
structure Kept (controller : TraceController) (w : World) : Prop where
  traced : Traced controller w
  aged : Aged Span.place Span.parent w.forest
  made : w.state.made = w.forest.length
  stack : w.state.stack.reverse = w.openSpans.map (·.context)
  suppressed : ∀ span ∈ w.forest, span.context.suppressed = !span.allowed controller
  mode : ∀ span ∈ w.forest, span.opening = .span → span.context.asTrace = false
  parents : ∀ span ∈ w.openSpans, ∀ i ∈ span.parent, i ∉ w.ended
  ended : ∀ i ∈ w.ended, i < w.forest.length
  fresh : ∀ span ∈ w.forest, ∀ context ∈ span.context.providerContext, context < w.state.calls.length
  root : ∀ root ∈ w.state.sessionRoot, ∃ span ∈ w.openSpans, span.context = root ∧ span.opening = .session

theorem World.mem_openSpans {span : Span} : span ∈ w.openSpans ↔ span ∈ w.forest ∧ span.place ∉ w.ended := by
  rw [World.openSpans, List.mem_filter, decide_eq_true_eq]

theorem World.openAt_eq_some {i : ℕ} {span : Span} (h : w.openAt i = some span) : span ∈ w.openSpans ∧ span.place = i :=
  ⟨List.mem_of_find?_eq_some h, by simpa using List.find?_some h⟩

namespace Kept

theorem place_lt (h : Kept controller w) {span : Span} (hspan : span ∈ w.openSpans) : span.place < w.forest.length :=
  h.aged.place_lt (World.mem_openSpans.mp hspan).1

theorem sorted (h : Kept controller w) : w.openSpans.Pairwise fun span older => older.place < span.place :=
  h.aged.pairwise.filter _

theorem live_eq (h : Kept controller w) {span : Span} (hspan : span ∈ w.forest) :
    span.context.live = span.context.providerContext := by
  rw [SemanticSpanContext.live, h.suppressed span hspan]
  cases hallowed : span.allowed controller with
  | false =>
    rw [h.traced.hidden span hspan hallowed]
    rfl
  | true => rfl

theorem allowed_of_live (h : Kept controller w) {span : Span} (hspan : span ∈ w.forest)
    (hlive : span.context.providerContext.isSome = true) : span.allowed controller = true := by
  by_contra hallowed
  rw [h.traced.hidden span hspan (Bool.eq_false_of_not_eq_true hallowed)] at hlive
  cases hlive

theorem nearest_open (h : Kept controller w) {i : ℕ} (hi : i ∉ w.ended) {ancestor : Span}
    (hnear : nearestAllowed controller w.forest (some i) = some ancestor) :
    ancestor ∈ w.openSpans ∧ ancestor.place ≤ i := by
  have hclosed : ∀ span ∈ w.forest, (span.place ∉ w.ended ∧ span.place ≤ i) → ∀ j ∈ span.parent,
      j ∉ w.ended ∧ j ≤ i := by
    intro span hspan hopen j hj
    exact ⟨h.parents span (World.mem_openSpans.mpr ⟨hspan, hopen.1⟩) j hj,
      Nat.le_trans (Nat.le_of_lt (h.aged.parent_lt hspan j hj)) hopen.2⟩
  have hstart : ∀ j ∈ some i, j ∉ w.ended ∧ j ≤ i := by
    intro j hj
    rw [← Option.mem_some_iff.mp hj]
    exact ⟨hi, Nat.le_refl i⟩
  have hplace := nearest_closed (Q := fun j => j ∉ w.ended ∧ j ≤ i) hclosed hstart hnear
  exact ⟨World.mem_openSpans.mpr ⟨(nearest_mem hnear).1, hplace.1⟩, hplace.2⟩

theorem findSome?_live (h : Kept controller w) {i : ℕ} (hi : i ∉ w.ended) (hclear : Unshadowed controller w i)
    {older : List Span} (hsub : older.Sublist w.openSpans) (hle : ∀ span ∈ older, span.place ≤ i)
    (hall : ∀ span ∈ w.openSpans, span.allowed controller = true → span.place ≤ i → span ∈ older) :
    (older.map (·.context)).findSome? (·.live) = parentContext controller w.forest (some i) := by
  have hforest {span : Span} (hspan : span ∈ older) : span ∈ w.forest := (World.mem_openSpans.mp (hsub.subset hspan)).1
  rw [List.findSome?_map, parentContext]
  cases hnear : nearestAllowed controller w.forest (some i) with
  | none =>
    rw [Option.bind_none, List.findSome?_eq_none_iff]
    intro span hspan
    have hnot : span.allowed controller = false := by
      rw [← Bool.not_eq_true]
      intro hallowed
      obtain ⟨ancestor, hancestor, -⟩ := hclear span (hsub.subset hspan) hallowed (hle span hspan)
      rw [hnear] at hancestor
      cases hancestor
    rw [Function.comp_apply, h.live_eq (hforest hspan), h.traced.hidden span (hforest hspan) hnot]
  | some ancestor =>
    obtain ⟨hopen, hplace⟩ := h.nearest_open hi hnear
    obtain ⟨hmem, hallowed⟩ := nearest_mem hnear
    obtain ⟨context, hcontext, -⟩ := h.traced.shown ancestor hmem hallowed
    rw [Option.bind_some, hcontext]
    refine findSome?_newest (h.sorted.sublist hsub) (hall ancestor hopen hallowed hplace) ?_ fun span hspan hlive => ?_
    · rw [Function.comp_apply, h.live_eq hmem, hcontext]
    · rw [Function.comp_apply, h.live_eq (hforest hspan)] at hlive
      obtain ⟨a, ha, hle⟩ := hclear span (hsub.subset hspan) (h.allowed_of_live (hforest hspan) hlive) (hle span hspan)
      rw [hnear, Option.mem_some_iff] at ha
      exact ha ▸ hle

theorem below_eq (h : Kept controller w) {span : Span} {newer older : List Span}
    (hsplit : w.openSpans = newer ++ span :: older) :
    below span.context w.state.stack = older.map (·.context) := by
  have hnewer : ∀ context ∈ newer.map (·.context), (context.place != span.place) = true := by
    intro context hcontext
    obtain ⟨other, hother, rfl⟩ := List.mem_map.mp hcontext
    have hsorted := hsplit ▸ h.sorted
    rw [bne_iff_ne]
    exact Nat.ne_of_gt ((List.pairwise_append.mp hsorted).2.2 other hother span List.mem_cons_self)
  rw [below, h.stack, hsplit, List.map_append, List.dropWhile_append_of_pos hnewer, List.map_cons,
    List.dropWhile_cons_of_neg (by simp)]

theorem providerParent_eq (h : Kept controller w) {parent : Option ℕ} {policy : ParentPolicy}
    {explicit : Option SpanContext} (hexplicit : w.explicit parent = some explicit)
    (hclear : ∀ i ∈ w.parentOf parent policy, Unshadowed controller w i) :
    providerParent explicit policy w.state.stack =
      parentContext controller w.forest (w.parentOf parent policy) := by
  cases parent with
  | none =>
    cases hexplicit
    rw [World.parentOf] at hclear ⊢
    rw [providerParent]
    split
    · rw [parentContext, nearestAllowed, nearest_none, Option.bind_none]
    · next hpolicy =>
      rw [if_neg hpolicy] at hclear
      rw [h.stack]
      cases hspans : w.openSpans with
      | nil =>
        rw [List.head?_nil, Option.map_none, parentContext, nearestAllowed, nearest_none]
        rfl
      | cons span rest =>
        have hmem : span ∈ w.openSpans := hspans ▸ List.mem_cons_self
        have hle : ∀ other ∈ w.openSpans, other.place ≤ span.place := by
          have hsorted := hspans ▸ h.sorted
          intro other hother
          rcases List.mem_cons.mp (hspans ▸ hother) with rfl | hother
          · exact Nat.le_refl _
          · exact Nat.le_of_lt (List.rel_of_pairwise_cons hsorted hother)
        rw [hspans, List.head?_cons, Option.map_some] at hclear
        have hwalk := h.findSome?_live (World.mem_openSpans.mp hmem).2 (hclear _ rfl) (.refl _) hle
          fun other hother _ _ => hother
        rw [hspans] at hwalk
        exact hwalk
  | some i =>
    obtain ⟨span, hspan, rfl⟩ := Option.map_eq_some_iff.mp hexplicit
    obtain ⟨hopen, rfl⟩ := World.openAt_eq_some hspan
    obtain ⟨hmem, hnot⟩ := World.mem_openSpans.mp hopen
    cases hallowed : span.allowed controller with
    | true =>
      obtain ⟨context, hcontext, -⟩ := h.traced.shown span hmem hallowed
      rw [providerParent, hcontext, World.parentOf, parentContext, nearestAllowed, nearest_place h.aged hmem,
        if_pos hallowed, Option.bind_some, hcontext]
    | false =>
      obtain ⟨newer, older, hsplit⟩ := List.append_of_mem hopen
      have hsorted := List.pairwise_append.mp (hsplit ▸ h.sorted)
      rw [providerParent, h.traced.hidden span hmem hallowed, World.parentOf]
      dsimp only
      rw [h.below_eq hsplit]
      refine h.findSome?_live hnot (hclear _ rfl) ?_ ?_ ?_
      · rw [hsplit]
        exact (List.sublist_cons_self _ _).trans (List.sublist_append_right _ _)
      · exact fun other hother => Nat.le_of_lt (List.rel_of_pairwise_cons hsorted.2.1 hother)
      · intro other hother hshown hle
        rw [hsplit, List.mem_append, List.mem_cons] at hother
        rcases hother with hnewer | rfl | hother
        · exact absurd (hsorted.2.2 other hnewer span List.mem_cons_self) (Nat.not_lt_of_le hle)
        · rw [hallowed] at hshown
          cases hshown
        · exact hother

/-! ### A span opens -/

theorem calls_lt (h : Kept controller w) : ∀ call ∈ w.state.calls, ∀ context ∈ call.context,
    context < w.state.calls.length := by
  intro call hcall context hcontext
  obtain ⟨span, hspan, -, heq⟩ := h.traced.only call hcall
  exact h.fresh span hspan context (heq ▸ hcontext)

theorem filter_fresh (h : Kept controller w) :
    w.state.calls.filter (·.context = some w.state.calls.length) = [] := by
  rw [List.filter_eq_nil_iff]
  intro call hcall hcontext
  rw [decide_eq_true_eq] at hcontext
  exact Nat.lt_irrefl _ (h.calls_lt call hcall _ hcontext)

theorem parentContext_cons {span : Span} {forest : List Span} (h : Aged Span.place Span.parent (span :: forest))
    {start : Option ℕ} (hstart : ∀ i ∈ start, i < forest.length) :
    parentContext controller (span :: forest) start = parentContext controller forest start := by
  rw [parentContext, nearestAllowed, nearest_cons_of_lt h hstart, parentContext]

theorem startCall_context (forest : List Span) (span : Span) (context : ℕ) :
    (startCall controller forest span context).context = some context := by
  rw [startCall]
  split <;> rfl

theorem endCall_context (span : Span) (context : ℕ) : (endCall span context).context = some context := by
  rw [endCall]
  split <;> rfl

end Kept

def World.push (w : World) (span : Span) (root : Option SemanticSpanContext) (new : List TracerCall) : World :=
  { state :=
      { stack := w.state.stack ++ [span.context], made := w.state.made + 1, sessionRoot := root
        calls := w.state.calls ++ new }
    forest := span :: w.forest
    ended := w.ended }

inductive Told (controller : TraceController) (w : World) (span : Span) : List TracerCall → Prop
  | hidden (hallowed : span.allowed controller = false) (hsuppressed : span.context.suppressed = true)
      (hcontext : span.context.providerContext = none) : Told controller w span []
  | shown (hallowed : span.allowed controller = true) (hsuppressed : span.context.suppressed = false)
      (hcontext : span.context.providerContext = some w.state.calls.length) :
      Told controller w span [startCall controller w.forest span w.state.calls.length]

namespace Kept

variable {span : Span} {root : Option SemanticSpanContext} {new : List TracerCall}

theorem filter_push_old (h : Kept controller w) (htold : Told controller w span new) {old : Span}
    (hold : old ∈ w.forest) {context : ℕ} (hcontext : old.context.providerContext = some context) :
    (w.state.calls ++ new).filter (·.context = some context) =
      w.state.calls.filter (·.context = some context) := by
  cases htold with
  | hidden => rw [List.append_nil]
  | shown =>
    have hne : w.state.calls.length ≠ context := Nat.ne_of_gt (h.fresh old hold context hcontext)
    rw [List.filter_append, List.filter_cons_of_neg (by simpa [startCall_context] using hne), List.filter_nil,
      List.append_nil]

theorem context_ne (h : Kept controller w) (htold : Told controller w span new) {old : Span} (hold : old ∈ w.forest)
    {context : ℕ} (hcontext : span.context.providerContext = some context) :
    old.context.providerContext ≠ some context := by
  intro hsame
  cases htold with
  | hidden _ _ hnone =>
    rw [hnone] at hcontext
    cases hcontext
  | shown _ _ hnew =>
    rw [hnew, Option.some.injEq] at hcontext
    exact Nat.ne_of_lt (h.fresh old hold context hsame) hcontext.symm

theorem traced_push (h : Kept controller w) (htold : Told controller w span new)
    (haged : Aged Span.place Span.parent (span :: w.forest)) : Traced controller (w.push span root new) where
  shown := by
    intro other hother hallowed
    rcases List.mem_cons.mp hother with rfl | hold
    · cases htold with
      | hidden hnot => exact absurd hallowed (Bool.eq_false_iff.mp hnot)
      | shown _ _ hcontext =>
        have hopen : other.place ∉ w.ended := fun hended => Nat.ne_of_lt (h.ended _ hended) haged.1
        refine ⟨_, hcontext, ?_⟩
        rw [World.push, List.filter_append, h.filter_fresh, List.nil_append,
          List.filter_cons_of_pos (by simp [startCall_context]), List.filter_nil, callsOf, if_neg hopen, startCall,
          startCall, parentContext_cons haged haged.2.1]
    · obtain ⟨context, hcontext, hcalls⟩ := h.traced.shown other hold hallowed
      refine ⟨context, hcontext, ?_⟩
      have hparent (i : ℕ) (hi : i ∈ other.parent) : i < w.forest.length :=
        Nat.lt_trans (h.aged.parent_lt hold i hi) (h.aged.place_lt hold)
      rw [World.push, h.filter_push_old htold hold hcontext, hcalls, callsOf, callsOf, startCall, startCall,
        parentContext_cons haged hparent]
  hidden := by
    intro other hother hallowed
    rcases List.mem_cons.mp hother with rfl | hold
    · cases htold with
      | hidden _ _ hcontext => exact hcontext
      | shown hshown =>
        rw [hshown] at hallowed
        cases hallowed
    · exact h.traced.hidden other hold hallowed
  only := by
    intro call hcall
    rcases List.mem_append.mp hcall with hcall | hcall
    · obtain ⟨other, hother, hallowed, hcontext⟩ := h.traced.only call hcall
      exact ⟨other, List.mem_cons_of_mem _ hother, hallowed, hcontext⟩
    · cases htold with
      | hidden => cases hcall
      | shown hallowed _ hcontext =>
        rw [List.mem_singleton.mp hcall]
        exact ⟨span, List.mem_cons_self, hallowed, by rw [startCall_context, hcontext]⟩
  distinct := by
    intro one hone other hother context hcontext hsame
    rcases List.mem_cons.mp hone with rfl | hone' <;> rcases List.mem_cons.mp hother with rfl | hother'
    · rfl
    · exact absurd hsame (h.context_ne htold hother' hcontext)
    · exact absurd hcontext (h.context_ne htold hone' hsame)
    · exact h.traced.distinct one hone' other hother' context hcontext hsame

theorem openSpans_push (hplace : span.place ∉ w.ended) :
    (w.push span root new).openSpans = span :: w.openSpans := by
  rw [World.openSpans, World.push, List.filter_cons_of_pos (by simpa using hplace), World.openSpans]

theorem push (h : Kept controller w) (hplace : span.place = w.forest.length)
    (hparent : ∀ i ∈ span.parent, i < w.forest.length ∧ i ∉ w.ended)
    (hmode : span.opening = .span → span.context.asTrace = false)
    (hroot : ∀ r ∈ root, r ∈ w.state.sessionRoot ∨ span.context = r ∧ span.opening = .session)
    (htold : Told controller w span new) : Kept controller (w.push span root new) := by
  have haged : Aged Span.place Span.parent (span :: w.forest) := ⟨hplace, fun i hi => (hparent i hi).1, h.aged⟩
  have hopen : span.place ∉ w.ended := fun hended => Nat.ne_of_lt (h.ended _ hended) hplace
  refine { traced := h.traced_push htold haged, aged := haged, made := ?_, stack := ?_, suppressed := ?_, mode := ?_,
           parents := ?_, ended := ?_, fresh := ?_, root := ?_ }
  · rw [World.push, List.length_cons, h.made]
  · rw [openSpans_push hopen, World.push, List.reverse_concat, h.stack, List.map_cons]
  · intro other hother
    rcases List.mem_cons.mp hother with rfl | hold
    · cases htold with
      | hidden hallowed hsuppressed => rw [hallowed, hsuppressed, Bool.not_false]
      | shown hallowed hsuppressed => rw [hallowed, hsuppressed, Bool.not_true]
    · exact h.suppressed other hold
  · intro other hother
    rcases List.mem_cons.mp hother with rfl | hold
    · exact hmode
    · exact h.mode other hold
  · intro other hother i hi
    rcases List.mem_cons.mp (openSpans_push hopen ▸ hother) with rfl | hold
    · exact (hparent i hi).2
    · exact h.parents other hold i hi
  · intro i hi
    exact Nat.lt_succ_of_lt (h.ended i hi)
  · intro other hother context hcontext
    rw [World.push, List.length_append]
    rcases List.mem_cons.mp hother with rfl | hold
    · cases htold with
      | hidden _ _ hnone =>
        rw [hnone] at hcontext
        cases hcontext
      | shown _ _ hnew =>
        rw [hnew, Option.mem_some_iff] at hcontext
        rw [← hcontext, List.length_singleton]
        exact Nat.lt_succ_self _
    · exact Nat.lt_add_right _ (h.fresh other hold context hcontext)
  · intro r hr
    rw [openSpans_push hopen]
    rcases hroot r hr with hr | hnew
    · obtain ⟨other, hother, heq⟩ := h.root r hr
      exact ⟨other, List.mem_cons_of_mem _ hother, heq⟩
    · exact ⟨span, List.mem_cons_self, hnew⟩

theorem parentOf_open (h : Kept controller w) {parent : Option ℕ} {policy : ParentPolicy}
    {explicit : Option SpanContext} (hexplicit : w.explicit parent = some explicit) :
    ∀ i ∈ w.parentOf parent policy, i < w.forest.length ∧ i ∉ w.ended := by
  have hopen {span : Span} (hspan : span ∈ w.openSpans) : span.place < w.forest.length ∧ span.place ∉ w.ended :=
    ⟨h.place_lt hspan, (World.mem_openSpans.mp hspan).2⟩
  intro i hi
  cases parent with
  | none =>
    rw [World.parentOf] at hi
    split at hi
    · cases hi
    · obtain ⟨span, hspan, rfl⟩ := Option.map_eq_some_iff.mp hi
      exact hopen (List.mem_of_head? hspan)
  | some j =>
    obtain rfl := Option.mem_some_iff.mp hi
    obtain ⟨span, hspan, -⟩ := Option.map_eq_some_iff.mp hexplicit
    obtain ⟨hmem, rfl⟩ := World.openAt_eq_some hspan
    exact hopen hmem

/-- `open_span` pushes the context of a span, and tells the backend of it if the profile allows the span. -/
theorem openSpan_told (h : Kept controller w) {spec : SpanSpec} {parent : Option ℕ} {explicit : Option SpanContext}
    {asTrace : Bool} (opening : Opening) (hexplicit : w.explicit parent = some explicit)
    (hclear : asTrace = false → controller.profile.allows spec = true →
      ∀ i ∈ w.parentOf parent spec.parentPolicy, Unshadowed controller w i) :
    ∃ span new, Told controller w span new ∧ span.place = w.state.made ∧ span.context.asTrace = asTrace ∧
      span.parent = w.parentOf parent spec.parentPolicy ∧ span.opening = opening ∧ span.context.spec = spec ∧
      controller.openSpan spec explicit asTrace w.state =
        (span.context,
          { stack := w.state.stack ++ [span.context], made := w.state.made + 1, sessionRoot := w.state.sessionRoot
            calls := w.state.calls ++ new }) := by
  cases hallowed : controller.profile.allows spec with
  | false =>
    let context : SemanticSpanContext :=
      { place := w.state.made, providerContext := none, spec, suppressed := true, asTrace }
    refine ⟨{ context, parent := w.parentOf parent spec.parentPolicy, opening }, [], .hidden hallowed rfl rfl,
      rfl, rfl, rfl, rfl, rfl, ?_⟩
    rw [TraceController.openSpan, hallowed, Bool.not_false, if_pos rfl, pushContext, List.append_nil]
  | true =>
    let context : SemanticSpanContext :=
      { place := w.state.made, providerContext := some w.state.calls.length, spec, suppressed := false, asTrace }
    refine ⟨{ context, parent := w.parentOf parent spec.parentPolicy, opening }, _, .shown hallowed rfl rfl,
      rfl, rfl, rfl, rfl, rfl, ?_⟩
    rw [TraceController.openSpan, hallowed, Bool.not_true, if_neg Bool.false_ne_true, pushContext, startCall]
    cases asTrace with
    | true => rfl
    | false =>
      rw [h.providerParent_eq hexplicit (hclear rfl hallowed)]

theorem opened (h : Kept controller w) {spec : SpanSpec} {parent : Option ℕ} {explicit : Option SpanContext}
    {asTrace : Bool} {opening : Opening} (hexplicit : w.explicit parent = some explicit)
    (hclear : asTrace = false → controller.profile.allows spec = true →
      ∀ i ∈ w.parentOf parent spec.parentPolicy, Unshadowed controller w i)
    (hmode : opening = .span → asTrace = false) :
    Kept controller (w.opened parent opening (controller.openSpan spec explicit asTrace w.state)) ∧
      (opening = .session → Kept controller (w.opened parent opening
        ((controller.openSpan spec explicit asTrace w.state).1,
          { (controller.openSpan spec explicit asTrace w.state).2 with
            sessionRoot := some (controller.openSpan spec explicit asTrace w.state).1 }))) := by
  obtain ⟨span, new, htold, hplace, hasTrace, hparent, hopening, hspec, hresult⟩ :=
    h.openSpan_told opening hexplicit hclear
  have hspan : span =
      { context := span.context, parent := w.parentOf parent span.context.spec.parentPolicy, opening } := by
    rw [hspec, ← hparent, ← hopening]
  have hpush (root : Option SemanticSpanContext)
      (hroot : ∀ r ∈ root, r ∈ w.state.sessionRoot ∨ span.context = r ∧ span.opening = .session) :
      Kept controller (w.push span root new) := by
    refine h.push (hplace.trans h.made) ?_ ?_ hroot htold
    · rw [hparent]
      exact h.parentOf_open hexplicit
    · rw [hopening, hasTrace]
      exact hmode
  rw [hresult, World.opened, World.opened, ← hspan]
  exact ⟨hpush w.state.sessionRoot fun r hr => .inl hr, fun hsession =>
    hpush (some span.context) fun r hr => .inr ⟨Option.mem_some_iff.mp hr, hopening.trans hsession⟩⟩

/-! ### A span ends -/

end Kept

theorem eraseP_map_eq (spans : List Span) (hsorted : spans.Pairwise fun span older => older.place < span.place)
    (i : ℕ) :
    (spans.map (·.context)).eraseP (·.place == i) = (spans.filter (·.place != i)).map (·.context) := by
  induction spans with
  | nil => rfl
  | cons span rest ih =>
    rw [List.map_cons]
    by_cases hi : span.place = i
    · have hrest : rest.filter (·.place != i) = rest := by
        rw [List.filter_eq_self]
        intro other hother
        rw [bne_iff_ne]
        exact hi ▸ Nat.ne_of_lt (List.rel_of_pairwise_cons hsorted hother)
      rw [List.eraseP_cons_of_pos (by simpa using hi), List.filter_cons_of_neg (by simpa using hi), hrest]
    · rw [List.eraseP_cons_of_neg (by simpa using hi), List.filter_cons_of_pos (by simpa using hi), List.map_cons,
        ih hsorted.of_cons]

theorem openSpans_closed (i : ℕ) (state : TraceState) :
    (w.closed i state).openSpans = w.openSpans.filter (·.place != i) := by
  rw [World.openSpans, World.closed, World.openSpans, List.filter_filter]
  refine List.filter_congr fun span _ => ?_
  simp [Bool.decide_and, bne, Bool.beq_eq_decide_eq]

inductive EndTold (controller : TraceController) (span : Span) : List TracerCall → Prop
  | hidden (hallowed : span.allowed controller = false) : EndTold controller span []
  | shown {context : ℕ} (hallowed : span.allowed controller = true)
      (hcontext : span.context.providerContext = some context) : EndTold controller span [endCall span context]

namespace Kept

variable {span : Span} {state : TraceState} {new : List TracerCall}

theorem filter_closed_old (h : Kept controller w) (hspan : span ∈ w.openSpans) (htold : EndTold controller span new)
    {other : Span} (hother : other ∈ w.forest) (hne : other ≠ span) {context : ℕ}
    (hcontext : other.context.providerContext = some context) : new.filter (·.context = some context) = [] := by
  cases htold with
  | hidden => rfl
  | @shown ended _ hended =>
    have hcontexts : ended ≠ context := by
      rintro rfl
      exact hne (h.traced.distinct other hother span (World.mem_openSpans.mp hspan).1 _ hcontext hended)
    rw [List.filter_cons_of_neg (by simpa [endCall_context] using hcontexts), List.filter_nil]

theorem traced_closed (h : Kept controller w) (hspan : span ∈ w.openSpans) (htold : EndTold controller span new)
    (hcalls : state.calls = w.state.calls ++ new) : Traced controller (w.closed span.place state) where
  shown := by
    intro other hother hallowed
    obtain ⟨context, hcontext, hfilter⟩ := h.traced.shown other hother hallowed
    obtain ⟨hforest, hopen⟩ := World.mem_openSpans.mp hspan
    refine ⟨context, hcontext, ?_⟩
    rw [World.closed, hcalls, List.filter_append, hfilter, callsOf, callsOf]
    by_cases hsame : other = span
    · subst hsame
      cases htold with
      | hidden hhidden =>
        rw [hhidden] at hallowed
        cases hallowed
      | shown _ hended =>
        rw [hcontext, Option.some.injEq] at hended
        rw [if_neg hopen, if_pos List.mem_cons_self, ← hended,
          List.filter_cons_of_pos (by simp [endCall_context]), List.filter_nil, List.singleton_append]
    · have hplace : other.place ≠ span.place := fun heq => hsame (h.aged.inj hother hforest heq)
      rw [h.filter_closed_old hspan htold hother hsame hcontext, List.append_nil]
      simp only [List.mem_cons, hplace, false_or]
  hidden := h.traced.hidden
  only := by
    intro call hcall
    rw [World.closed, hcalls] at hcall
    rcases List.mem_append.mp hcall with hcall | hcall
    · exact h.traced.only call hcall
    · cases htold with
      | hidden => cases hcall
      | shown hallowed hcontext =>
        rw [List.mem_singleton.mp hcall]
        exact ⟨span, (World.mem_openSpans.mp hspan).1, hallowed, by rw [endCall_context, hcontext]⟩
  distinct := h.traced.distinct

theorem closed (h : Kept controller w) (hspan : span ∈ w.openSpans) (hleaf : w.childless span.place = true)
    (htold : EndTold controller span new) (hcalls : state.calls = w.state.calls ++ new)
    (hmade : state.made = w.state.made)
    (hstack : state.stack.reverse = w.state.stack.reverse.eraseP (·.place == span.place))
    (hroot : ∀ root ∈ state.sessionRoot, root ∈ w.state.sessionRoot ∧ span.opening ≠ .session) :
    Kept controller (w.closed span.place state) := by
  have hmem {other : Span} : other ∈ (w.closed span.place state).openSpans ↔
      other ∈ w.openSpans ∧ other.place ≠ span.place := by
    rw [openSpans_closed, List.mem_filter, bne_iff_ne]
  refine { traced := h.traced_closed hspan htold hcalls, aged := h.aged, made := ?_, stack := ?_,
           suppressed := h.suppressed, mode := h.mode, parents := ?_, ended := ?_, fresh := ?_, root := ?_ }
  · rw [World.closed, hmade, h.made]
  · rw [openSpans_closed, ← eraseP_map_eq _ h.sorted, ← h.stack]
    exact hstack
  · intro other hother i hi
    obtain ⟨hopen, -⟩ := hmem.mp hother
    have hparent := List.all_eq_true.mp hleaf other hopen
    rw [bne_iff_ne] at hparent
    rw [World.closed, List.mem_cons, not_or]
    exact ⟨fun heq => hparent (heq ▸ hi), h.parents other hopen i hi⟩
  · intro i hi
    rcases List.mem_cons.mp hi with rfl | hi
    · exact h.place_lt hspan
    · exact h.ended i hi
  · intro other hother context hcontext
    rw [World.closed, hcalls, List.length_append]
    exact Nat.lt_add_right _ (h.fresh other hother context hcontext)
  · intro root hr
    obtain ⟨hold, hsession⟩ := hroot root hr
    obtain ⟨other, hother, hcontext, hopening⟩ := h.root root hold
    refine ⟨other, hmem.mpr ⟨hother, fun hplace => hsession ?_⟩, hcontext, hopening⟩
    have hsame := h.aged.inj (World.mem_openSpans.mp hother).1 (World.mem_openSpans.mp hspan).1 hplace
    exact hsame ▸ hopening

theorem endTrace_told (h : Kept controller w) (hspan : span ∈ w.openSpans) :
    ∃ new, EndTold controller span new ∧ endTrace (.semantic span.context) w.state =
      popContext span.context { w.state with calls := w.state.calls ++ new } := by
  have hforest := (World.mem_openSpans.mp hspan).1
  cases hallowed : span.allowed controller with
  | false =>
    refine ⟨[], .hidden hallowed, ?_⟩
    rw [endTrace, h.suppressed span hforest, hallowed, Bool.not_false, if_pos rfl, List.append_nil]
  | true =>
    obtain ⟨context, hcontext, -⟩ := h.traced.shown span hforest hallowed
    refine ⟨_, .shown hallowed hcontext, ?_⟩
    rw [endTrace, h.suppressed span hforest, hallowed, Bool.not_true, if_neg Bool.false_ne_true, hcontext, endCall]

theorem endSpan_eq (h : Kept controller w) (hspan : span ∈ w.openSpans) (hopening : span.opening = .span) :
    endSpan (.semantic span.context) w.state = endTrace (.semantic span.context) w.state := by
  rw [endSpan, endTrace, h.mode span (World.mem_openSpans.mp hspan).1 hopening]
  rfl

/-! ### Steps and runs -/

theorem endTrace (h : Kept controller w) (hspan : span ∈ w.openSpans) (hleaf : w.childless span.place = true)
    (hopening : span.opening ≠ .session) :
    Kept controller (w.closed span.place (endTrace (.semantic span.context) w.state)) := by
  obtain ⟨new, htold, heq⟩ := h.endTrace_told hspan
  rw [heq]
  exact h.closed hspan hleaf htold rfl rfl (List.reverse_reverse _) fun root hroot => ⟨hroot, hopening⟩

theorem endSession (h : Kept controller w) {root : SemanticSpanContext} (hroot : w.state.sessionRoot = some root)
    (hleaf : w.childless root.place = true) :
    Kept controller (w.closed root.place (SessionTraceController.endSession w.state)) := by
  obtain ⟨span, hspan, rfl, -⟩ := h.root root hroot
  obtain ⟨new, htold, heq⟩ := h.endTrace_told hspan
  rw [SessionTraceController.endSession, hroot]
  dsimp only
  rw [heq]
  exact h.closed hspan hleaf htold rfl rfl (List.reverse_reverse _) fun _ hnone => nomatch hnone

theorem start (controller : TraceController) : Kept controller .start where
  traced :=
    { shown := fun _ hspan => absurd hspan List.not_mem_nil
      hidden := fun _ hspan => absurd hspan List.not_mem_nil
      only := fun _ hcall => absurd hcall List.not_mem_nil
      distinct := fun _ hspan => absurd hspan List.not_mem_nil }
  aged := trivial
  made := rfl
  stack := rfl
  suppressed := fun _ hspan => absurd hspan List.not_mem_nil
  mode := fun _ hspan => absurd hspan List.not_mem_nil
  parents := fun _ hspan => absurd hspan List.not_mem_nil
  ended := fun _ hi => absurd hi List.not_mem_nil
  fresh := fun _ hspan => absurd hspan List.not_mem_nil
  root := fun _ hroot => nomatch hroot

end Kept

section

variable {cls : ControllerClass} {defaultName : String}

theorem startTraceOf_eq (name : String) (state : TraceState) :
    startTraceOf cls controller name state =
      controller.openSpan (specFromName name !becomesSpan cls state name) none (!becomesSpan cls state name) state := by
  by_cases hname : name = "agent.run"
  · cases hactive : hasActiveProviderParent state.stack <;> cases cls <;>
      cases hroot : (liveRoot state).isSome <;>
      simp [startTraceOf, becomesSpan, hname, hactive, hroot, SessionTraceController.startTrace,
        TraceController.startTrace, TraceController.startSpan]
  · have hnot : becomesSpan cls state name = false := by rw [becomesSpan, decide_eq_false hname, Bool.false_and]
    cases cls <;> simp [startTraceOf, hnot, hname, SessionTraceController.startTrace, TraceController.startTrace]

theorem Kept.asked (h : Kept controller w) {event : TraceEvent}
    (hmeets : ParentUnshadowed cls controller defaultName w event) {asked : OpenRequest}
    (hasked : request cls defaultName w event = some asked) {explicit : Option SpanContext}
    (hexplicit : w.explicit asked.parent = some explicit) (hmode : asked.opening = .span → asked.asTrace = false) :
    Kept controller (w.opened asked.parent asked.opening
        (controller.openSpan asked.spec explicit asked.asTrace w.state)) ∧
      (asked.opening = .session → Kept controller (w.opened asked.parent asked.opening
        ((controller.openSpan asked.spec explicit asked.asTrace w.state).1,
          { (controller.openSpan asked.spec explicit asked.asTrace w.state).2 with
            sessionRoot := some (controller.openSpan asked.spec explicit asked.asTrace w.state).1 }))) :=
  h.opened hexplicit (hmeets asked hasked) hmode

theorem Kept.step (h : Kept controller w) {event : TraceEvent} {w' : World}
    (hmeets : ParentUnshadowed cls controller defaultName w event)
    (hstep : traceStep cls controller defaultName w event = some w') : Kept controller w' := by
  cases event with
  | startTrace name =>
    rw [traceStep, Option.some.injEq, startTraceOf_eq] at hstep
    exact hstep ▸ (h.asked hmeets rfl rfl nofun).1
  | startSpan name parent =>
    obtain ⟨explicit, hexplicit, rfl⟩ := Option.map_eq_some_iff.mp hstep
    exact (h.asked hmeets rfl hexplicit fun _ => rfl).1
  | openSpan spec parent asTrace =>
    obtain ⟨explicit, hexplicit, rfl⟩ := Option.map_eq_some_iff.mp hstep
    refine (h.asked hmeets rfl hexplicit fun hopening => ?_).1
    cases asTrace with
    | true => cases hopening
    | false => rfl
  | endSpan i =>
    obtain ⟨span, hspan, hclosed⟩ := Option.bind_eq_some_iff.mp hstep
    obtain ⟨hopen, rfl⟩ := World.openAt_eq_some hspan
    split at hclosed
    · next hend =>
      cases hclosed
      rw [h.endSpan_eq hopen hend.1]
      exact h.endTrace hopen hend.2 (by simp [hend.1])
    · cases hclosed
  | endTrace i =>
    obtain ⟨span, hspan, hclosed⟩ := Option.bind_eq_some_iff.mp hstep
    obtain ⟨hopen, rfl⟩ := World.openAt_eq_some hspan
    split at hclosed
    · next hend =>
      cases hclosed
      exact h.endTrace hopen hend.2 (by simp [hend.1])
    · cases hclosed
  | beginSession name =>
    cases cls with
    | traceController => cases hstep
    | sessionTraceController =>
      rw [traceStep, SessionTraceController.beginSession] at hstep
      cases hroot : w.state.sessionRoot with
      | some root =>
        rw [hroot] at hstep
        exact Option.some.inj hstep ▸ h
      | none =>
        rw [hroot] at hstep
        have hasked : request .sessionTraceController defaultName w (.beginSession name) =
            some { spec := SessionTraceController.rootSpec defaultName name, parent := none, asTrace := true
                   opening := .session } := by
          rw [request, hroot]
          rfl
        exact Option.some.inj hstep ▸ (h.asked hmeets hasked rfl nofun).2 rfl
  | endSession =>
    cases cls with
    | traceController => cases hstep
    | sessionTraceController =>
      rw [traceStep] at hstep
      cases hroot : w.state.sessionRoot with
      | none =>
        rw [hroot, SessionTraceController.endSession, hroot] at hstep
        exact Option.some.inj hstep ▸ h
      | some root =>
        rw [hroot] at hstep
        dsimp only at hstep
        split at hstep
        · next hleaf => exact Option.some.inj hstep ▸ h.endSession hroot hleaf
        · cases hstep

end

/-! ### The session tracer -/

namespace SessionTracer

/-- Each context is given by the call at its place, in the mode that the session asked for. -/
structure KeptModes (w : SessionWorld) : Prop where
  modes : ModesMatch w.state.calls
  placed : ∀ (place : ℕ) (call : TracerCall), w.state.calls[place]? = some call → call.isStart = true →
    call.context = some place
  given : ∀ given ∈ w.given, ∃ call, w.state.calls[given.context]? = some call ∧ call.isStart = true ∧
    call.isTrace = (given.opening != .span && !given.inSession)
  root : ∀ root ∈ w.state.root, ∃ given ∈ w.given, given.context = root ∧ given.opening = .session ∧
    given.inSession = false

theorem ModesMatch.start {calls : List TracerCall} (h : ModesMatch calls) {call : TracerCall}
    (hcall : call.isStart = true)
    (hnew : ∀ finish ∈ calls, finish.isStart = false → finish.context ≠ call.context) :
    ModesMatch (calls ++ [call]) where
  opened := by
    intro finish hfinish hend
    rcases List.mem_append.mp hfinish with hfinish | hfinish
    · obtain ⟨start, hstart, hopens⟩ := h.opened finish hfinish hend
      exact ⟨start, List.mem_append_left _ hstart, hopens⟩
    · rw [List.mem_singleton.mp hfinish, hcall] at hend
      cases hend
  mode := by
    intro start hstart finish hfinish hopens hend hcontext
    rcases List.mem_append.mp hfinish with hfinish | hfinish
    · rcases List.mem_append.mp hstart with hstart | hstart
      · exact h.mode start hstart finish hfinish hopens hend hcontext
      · rw [List.mem_singleton.mp hstart] at hcontext
        exact absurd hcontext.symm (hnew finish hfinish hend)
    · rw [List.mem_singleton.mp hfinish, hcall] at hend
      cases hend

theorem ModesMatch.finish {calls : List TracerCall} (h : ModesMatch calls) {call start : TracerCall}
    (hcall : call.isStart = false) (hstart : start ∈ calls) (hopens : start.isStart = true)
    (hcontext : start.context = call.context) (hmode : start.isTrace = call.isTrace)
    (honly : ∀ other ∈ calls, other.isStart = true → other.context = call.context → other = start) :
    ModesMatch (calls ++ [call]) where
  opened := by
    intro finish hfinish hend
    rcases List.mem_append.mp hfinish with hfinish | hfinish
    · obtain ⟨other, hother, hopens⟩ := h.opened finish hfinish hend
      exact ⟨other, List.mem_append_left _ hother, hopens⟩
    · exact ⟨start, List.mem_append_left _ hstart, hopens, List.mem_singleton.mp hfinish ▸ hcontext⟩
  mode := by
    intro other hother finish hfinish hopens hend hsame
    rcases List.mem_append.mp hother with hother | hother
    · rcases List.mem_append.mp hfinish with hfinish | hfinish
      · exact h.mode other hother finish hfinish hopens hend hsame
      · rw [List.mem_singleton.mp hfinish] at hsame ⊢
        rw [honly other hother hopens hsame, hmode]
    · rw [List.mem_singleton.mp hother, hcall] at hopens
      cases hopens

namespace KeptModes

variable {w : SessionWorld}

theorem start_eq (h : KeptModes w) {given : Given} {start other : TracerCall}
    (hstart : w.state.calls[given.context]? = some start) (hother : other ∈ w.state.calls)
    (hopens : other.isStart = true) (hcontext : other.context = some given.context) : other = start := by
  obtain ⟨place, hplace⟩ := List.getElem?_of_mem hother
  have hsame := (h.placed place other hplace hopens).symm.trans hcontext
  rw [Option.some.injEq] at hsame
  rw [hsame, hstart, Option.some.injEq] at hplace
  exact hplace.symm

theorem ends (h : KeptModes w) {given : Given} (hgiven : given ∈ w.given) {root : Option ℕ}
    (hroot : ∀ r ∈ root, r ∈ w.state.root) {call : TracerCall} (hend : call.isStart = false)
    (hcontext : call.context = some given.context)
    (hmode : call.isTrace = (given.opening != .span && !given.inSession)) :
    KeptModes { w with state := { root, calls := w.state.calls ++ [call] } } where
  modes := by
    obtain ⟨start, hstart, hopens, htrace⟩ := h.given given hgiven
    refine h.modes.finish hend (List.mem_of_getElem? hstart) hopens ?_ (htrace.trans hmode.symm) ?_
    · rw [h.placed _ _ hstart hopens, hcontext]
    · exact fun other hother hopens hsame => h.start_eq hstart hother hopens (hsame.trans hcontext)
  placed := by
    intro place other hplace hopens
    rw [getElem?_concat] at hplace
    split at hplace
    · rw [← Option.some.inj hplace, hend] at hopens
      cases hopens
    · exact h.placed place other hplace hopens
  given := by
    intro other hother
    obtain ⟨start, hstart, hopens⟩ := h.given other hother
    refine ⟨start, ?_, hopens⟩
    rw [List.getElem?_append_left (List.getElem?_eq_some_iff.mp hstart).1]
    exact hstart
  root := fun r hr => h.root r (hroot r hr)

theorem starts (h : KeptModes w) {opening : Opening} {call : ℕ → TracerCall} {root : Option ℕ}
    (hstart : ∀ context, (call context).isStart = true) (hcontext : ∀ context, (call context).context = some context)
    (hmode : ∀ context, (call context).isTrace = (opening != .span && !w.inSession))
    (hroot : ∀ r ∈ root, r ∈ w.state.root ∨ r = w.state.calls.length ∧ opening = .session ∧ w.inSession = false) :
    KeptModes (w.gives opening
      (w.state.calls.length, { root, calls := w.state.calls ++ [call w.state.calls.length] })) where
  modes := by
    refine h.modes.start (hstart _) fun finish hfinish hend hsame => ?_
    obtain ⟨start, hmem, hopens, heq⟩ := h.modes.opened finish hfinish hend
    obtain ⟨place, hplace⟩ := List.getElem?_of_mem hmem
    have hfresh := (h.placed place start hplace hopens).symm.trans (heq.trans (hsame.trans (hcontext _)))
    rw [Option.some.injEq] at hfresh
    exact Nat.ne_of_lt (List.getElem?_eq_some_iff.mp hplace).1 hfresh
  placed := by
    intro place other hplace hopens
    rw [SessionWorld.gives, getElem?_concat] at hplace
    split at hplace
    · next hnew => rw [← Option.some.inj hplace, hcontext, hnew]
    · exact h.placed place other hplace hopens
  given := by
    intro other hother
    rcases List.mem_cons.mp hother with rfl | hold
    · exact ⟨_, List.getElem?_concat_length, hstart _, hmode _⟩
    · obtain ⟨start, hplace, hopens⟩ := h.given other hold
      refine ⟨start, ?_, hopens⟩
      rw [SessionWorld.gives, List.getElem?_append_left (List.getElem?_eq_some_iff.mp hplace).1]
      exact hplace
  root := by
    intro r hr
    rcases hroot r hr with hold | ⟨rfl, hsession⟩
    · obtain ⟨given, hgiven, hopens⟩ := h.root r hold
      exact ⟨given, List.mem_cons_of_mem _ hgiven, hopens⟩
    · exact ⟨_, List.mem_cons_self, rfl, hsession⟩

theorem start : KeptModes .start where
  modes := ⟨fun _ h => absurd h List.not_mem_nil, fun _ h => absurd h List.not_mem_nil⟩
  placed := fun _ _ h => nomatch h
  given := fun _ h => absurd h List.not_mem_nil
  root := fun _ h => nomatch h

theorem endSession (h : KeptModes w) {root : ℕ} (hroot : w.state.root = some root) :
    KeptModes { w with state := { root := none, calls := w.state.calls ++ [.endTrace (some root)] } } := by
  obtain ⟨given, hgiven, rfl, hopening, hsession⟩ := h.root root hroot
  refine h.ends hgiven ?_ rfl rfl ?_
  · exact fun r hr => nomatch hr
  · rw [hopening, hsession]
    rfl

theorem step (h : KeptModes w) {defaultName : String} {event : SessionEvent} {w' : SessionWorld}
    (hsame : SameSession w event) (hstep : sessionStep defaultName w event = some w') : KeptModes w' := by
  cases event with
  | beginSession name =>
    rw [sessionStep, beginSession] at hstep
    cases hroot : w.state.root with
    | some root =>
      rw [hroot] at hstep
      exact Option.some.inj hstep ▸ h
    | none =>
      rw [hroot] at hstep
      have hnone : w.inSession = false := by rw [SessionWorld.inSession, hroot, Option.isSome_none]
      refine Option.some.inj hstep ▸ h.starts (fun _ => rfl) (fun _ => rfl) (fun _ => ?_) fun r hr => .inr ?_
      · rw [hnone]
        rfl
      · exact ⟨(Option.mem_some_iff.mp hr).symm, rfl, hnone⟩
  | endSession =>
    rw [sessionStep, SessionTracer.endSession] at hstep
    cases hroot : w.state.root with
    | none =>
      rw [hroot] at hstep
      exact Option.some.inj hstep ▸ h
    | some root =>
      rw [hroot] at hstep
      exact Option.some.inj hstep ▸ h.endSession hroot
  | startTrace name =>
    rw [sessionStep, startTrace] at hstep
    cases hroot : w.state.root with
    | none =>
      have hnone : w.inSession = false := by rw [SessionWorld.inSession, hroot, Option.isSome_none]
      rw [hroot] at hstep
      refine Option.some.inj hstep ▸ h.starts (fun _ => rfl) (fun _ => rfl) (fun _ => ?_) fun r hr => .inl hr
      rw [hnone]
      rfl
    | some root =>
      have hsome : w.inSession = true := by rw [SessionWorld.inSession, hroot, Option.isSome_some]
      rw [hroot] at hstep
      refine Option.some.inj hstep ▸ h.starts (fun _ => rfl) (fun _ => rfl) (fun _ => ?_) fun r hr => .inl hr
      rw [hsome]
      rfl
  | endTrace context =>
    rw [sessionStep] at hstep
    split at hstep
    · next hgiven =>
      obtain ⟨given, hgiven, rfl, hopening⟩ := hgiven
      rw [endTrace] at hstep
      have hspan : (given.opening != .span) = true := bne_iff_ne.mpr hopening
      cases hroot : w.state.root with
      | none =>
        have hin : given.inSession = w.inSession := hsame (by rw [hroot]; nofun) given hgiven rfl
        rw [SessionWorld.inSession, hroot, Option.isSome_none] at hin
        rw [hroot] at hstep
        dsimp only at hstep
        refine Option.some.inj hstep ▸ h.ends hgiven ?_ rfl rfl ?_
        · exact fun r hr => nomatch hr
        · rw [hspan, hin]
          rfl
      | some root =>
        rw [hroot] at hstep
        dsimp only at hstep
        split at hstep
        · next heq =>
          rw [SessionTracer.endSession, hroot] at hstep
          exact Option.some.inj hstep ▸ h.endSession hroot
        · next hne =>
          have hin : given.inSession = w.inSession :=
            hsame (fun hsome => hne (Option.some.inj (hroot.symm.trans hsome)).symm) given hgiven rfl
          rw [SessionWorld.inSession, hroot, Option.isSome_some] at hin
          refine Option.some.inj hstep ▸ h.ends hgiven (fun r hr => hroot ▸ hr) rfl rfl ?_
          rw [hin, Bool.not_true, Bool.and_false]
          rfl
    · cases hstep
  | startSpan name parent =>
    refine Option.some.inj hstep ▸ h.starts (fun _ => rfl) (fun _ => rfl) (fun _ => ?_) fun r hr => .inl hr
    rfl
  | endSpan context =>
    rw [sessionStep] at hstep
    split at hstep
    · next hgiven =>
      obtain ⟨given, hgiven, rfl, hopening⟩ := hgiven
      refine Option.some.inj hstep ▸ h.ends hgiven (fun r hr => hr) rfl rfl ?_
      rw [hopening]
      rfl
    · cases hstep

end KeptModes

end SessionTracer

/-! ### The result -/

/-- In every run in which no allowed child is opened under a shadowed parent, the backend sees the forest of the allowed
spans; and in every run of a session tracer in which a trace ends in a session if and only if it began in one, every
context ends in the mode in which it was opened. -/
theorem spans_traced_and_modes_match (defaultName : String) :
    (∀ (cls : ControllerClass) (controller : TraceController) (events : List TraceEvent) (w : World),
      Throughout (traceStep cls controller defaultName) (ParentUnshadowed cls controller defaultName) .start events →
      runFrom (traceStep cls controller defaultName) .start events = some w → Traced controller w) ∧
    ∀ (events : List SessionTracer.SessionEvent) (w : SessionTracer.SessionWorld),
      Throughout (SessionTracer.sessionStep defaultName) SessionTracer.SameSession .start events →
      runFrom (SessionTracer.sessionStep defaultName) .start events = some w →
      SessionTracer.ModesMatch w.state.calls := by
  constructor
  · intro cls controller events w hmeets hrun
    have hkept := runFrom_invariant (fun w event w' h hmeets hstep => Kept.step h hmeets hstep)
      (Kept.start controller) hmeets hrun
    exact hkept.traced
  · intro events w hsame hrun
    have hkept := runFrom_invariant (fun w event w' h hsame hstep => SessionTracer.KeptModes.step h hsame hstep)
      SessionTracer.KeptModes.start hsame hrun
    exact hkept.modes

def defaultController : TraceController := { profile := .default, translateStart := (·.name) }

def sessionRun : List TraceEvent :=
  [.beginSession none, .startTrace "agent.run", .startSpan "runtime.iteration" (some 1), .startSpan "llm.call" (some 2),
    .endSpan 3, .endSpan 2, .endTrace 1, .endSession]

def twoTraces : List SessionTracer.SessionEvent :=
  [.startTrace "agent.run", .endTrace 0, .beginSession none, .startTrace "agent.run", .endTrace 3, .endSession]

theorem session_traced :
    (∃ w, runFrom (traceStep .sessionTraceController defaultController "session.run") .start sessionRun = some w ∧
      Traced defaultController w) ∧
    ∃ w, runFrom (SessionTracer.sessionStep "session.run") .start twoTraces = some w ∧
      SessionTracer.ModesMatch w.state.calls := by
  have hsession : (runFrom (traceStep .sessionTraceController defaultController "session.run") .start
      sessionRun).isSome = true := by
    decide +kernel
  have htraces : (runFrom (SessionTracer.sessionStep "session.run") .start twoTraces).isSome = true := by
    decide +kernel
  obtain ⟨w, hw⟩ := Option.isSome_iff_exists.mp hsession
  obtain ⟨v, hv⟩ := Option.isSome_iff_exists.mp htraces
  exact ⟨⟨w, hw, (spans_traced_and_modes_match _).1 _ _ _ _ (by decide +kernel) hw⟩,
    ⟨v, hv, (spans_traced_and_modes_match _).2 _ _ (by decide +kernel) hv⟩⟩

/-- An iteration that the profile hides is opened under the run while a call of a model is open, and a tool is called in
the iteration. -/
def shadowedRun : List TraceEvent :=
  [.startTrace "agent.run", .startSpan "llm.call" (some 0), .startSpan "runtime.iteration" (some 0),
    .startSpan "tool.call" (some 2), .endSpan 3, .endSpan 2, .endSpan 1, .endTrace 0]

def overtakenTrace : List SessionTracer.SessionEvent :=
  [.startTrace "agent.run", .beginSession none, .endTrace 0, .endSession]

/-- The tool comes to hang under the call of the model, and the trace ends as a span. -/
theorem tool_under_sibling :
    (∃ w, runFrom (traceStep .traceController defaultController "session.run") .start shadowedRun = some w ∧
      ¬ Traced defaultController w) ∧
    ∃ w, runFrom (SessionTracer.sessionStep "session.run") .start overtakenTrace = some w ∧
      ¬ SessionTracer.ModesMatch w.state.calls := by
  have hshadowed : ((runFrom (traceStep .traceController defaultController "session.run") .start shadowedRun).any
      fun w => decide ¬ ∀ span ∈ w.forest, span.allowed defaultController = true →
        ∀ context ∈ span.context.providerContext,
          w.state.calls.filter (·.context = some context) = callsOf defaultController w span context) = true := by
    decide +kernel
  have hovertaken : ((runFrom (SessionTracer.sessionStep "session.run") .start overtakenTrace).any
      fun w => decide ¬ ∀ opens ∈ w.state.calls, ∀ ends ∈ w.state.calls, opens.isStart = true → ends.isStart = false →
        opens.context = ends.context → opens.isTrace = ends.isTrace) = true := by
    decide +kernel
  constructor
  · obtain ⟨w, hw, hnot⟩ := (Option.any_eq_true _ _).mp hshadowed
    refine ⟨w, hw, fun htraced => of_decide_eq_true hnot fun span hspan hallowed context hcontext => ?_⟩
    obtain ⟨own, hown, hcalls⟩ := htraced.shown span hspan hallowed
    rw [hown, Option.mem_some_iff] at hcontext
    exact hcontext ▸ hcalls
  · obtain ⟨w, hw, hnot⟩ := (Option.any_eq_true _ _).mp hovertaken
    exact ⟨w, hw, fun hmodes => of_decide_eq_true hnot hmodes.mode⟩

end VidbyteSdk.Trace
