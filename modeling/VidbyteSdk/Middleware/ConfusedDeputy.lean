import Mathlib.Algebra.Order.Ring.Rat
import Mathlib.Algebra.Order.Field.Basic
import VidbyteSdk.Lib.CommonSubstring
import VidbyteSdk.Lib.Json

/-!
# The confused-deputy guard

`ConfusedDeputyGuardMiddleware` of `middleware/builtins/confused_deputy.py`: tool results are recorded, and a later
tool call is aborted when a text of its arguments is copied from them more than from the user's own message.
-/

namespace VidbyteSdk.Middleware.ConfusedDeputy

open VidbyteSdk.Lib

inductive Argument where
  | str (text : Text)
  | mapping (entries : List (Text × Argument))
  | list (items : List Argument)
  | tuple (items : List Argument)
  -- a number, a boolean, `None`
  | other

/-- The numbers that the overlap ratios are: quotients of two lengths, as the code's `/` rounds them. Doubles keep
the order of two lengths below `2 ^ 52`, which no text reaches. -/
structure Ratios (F : Type*) [LinearOrder F] where
  zero : F
  one : F
  div : ℕ → ℕ → F
  /-- `round(ratio, 4)`. -/
  round4 : F → F
  zero_div (n : ℕ) : div 0 n = zero
  div_lt {a b n : ℕ} : a < b → b ≤ n → div a n < div b n

structure ToolCall where
  toolName : Text
  arguments : List (Text × Argument)

structure ToolResult where
  output : Text

/-- `_ConfusedDeputyRunState`. -/
structure RunState where
  userMessage : Text := []
  toolOutputs : List Text := []

/-- What the hooks read of a `MiddlewareContext`; `runState` is the entry of this class in `run_state`. -/
structure Context where
  message : Text := []
  toolCall : Option ToolCall := none
  toolResult : Option ToolResult := none
  toolIsInternal : Bool := false
  runState : Option RunState := none

/-- `ctx.run_state.get(self.__class__) or _ConfusedDeputyRunState()`. -/
def Context.state (ctx : Context) : RunState := ctx.runState.getD {}

structure Overlap (F : Type*) where
  toolName : Text
  argumentName : Text
  overlapRatio : F
  threshold : F

inductive Decision (F : Type*) where
  | continue_
  | abort (reason : String) (metadata : Overlap F)

def Decision.isAbort {F : Type*} : Decision F → Bool
  | .continue_ => false
  | .abort .. => true

/-! ### The strings of an argument -/

section

open Argument

/-- `item.values()`. -/
def valuesOf (entries : List (Text × Argument)) : List Argument := entries.map Prod.snd

noncomputable def pendingSize (pending : List Argument) : ℕ := (pending.map sizeOf).sum

@[simp] theorem pendingSize_cons (item : Argument) (pending : List Argument) :
    pendingSize (item :: pending) = sizeOf item + pendingSize pending := rfl

theorem pendingSize_append (pending extra : List Argument) :
    pendingSize (pending ++ extra) = pendingSize pending + pendingSize extra := by
  simp only [pendingSize, List.map_append, List.sum_append]

theorem pendingSize_lt (items : List Argument) : pendingSize items < sizeOf items := by
  induction items with
  | nil => decide
  | cons item items ih =>
    rw [pendingSize_cons, List.cons.sizeOf_spec]
    omega

theorem pendingSize_values_lt (entries : List (Text × Argument)) :
    pendingSize (valuesOf entries) < sizeOf entries := by
  induction entries with
  | nil => decide
  | cons entry entries ih =>
    rw [show valuesOf (entry :: entries) = entry.2 :: valuesOf entries from rfl, pendingSize_cons,
      List.cons.sizeOf_spec, Prod.mk.sizeOf_spec]
    omega

/-- The loop of `_string_leaves`. -/
def leavesOf : List Argument → List Text
  | [] => []
  | str text :: pending => text :: leavesOf pending
  | mapping entries :: pending => leavesOf (pending ++ valuesOf entries)
  | list items :: pending => leavesOf (pending ++ items)
  | tuple items :: pending => leavesOf (pending ++ items)
  | other :: pending => leavesOf pending
termination_by pending => pendingSize pending
decreasing_by
  all_goals rw [pendingSize_cons]
  · rw [str.sizeOf_spec]
    omega
  · rw [mapping.sizeOf_spec, pendingSize_append]
    have := pendingSize_values_lt entries
    omega
  · rw [list.sizeOf_spec, pendingSize_append]
    have := pendingSize_lt items
    omega
  · rw [tuple.sizeOf_spec, pendingSize_append]
    have := pendingSize_lt items
    omega
  · rw [other.sizeOf_spec]
    omega

/-- `_string_leaves`. -/
def stringLeaves (value : Argument) : List Text := leavesOf [value]

/-- `Leaf value text`: the text is inside the value, at some depth. -/
inductive Leaf : Argument → Text → Prop where
  | here (text : Text) : Leaf (str text) text
  | entry {entries : List (Text × Argument)} {entry : Text × Argument} {text : Text} :
      entry ∈ entries → Leaf entry.2 text → Leaf (mapping entries) text
  | item {items : List Argument} {item : Argument} {text : Text} :
      item ∈ items → Leaf item text → Leaf (list items) text
  | member {items : List Argument} {item : Argument} {text : Text} :
      item ∈ items → Leaf item text → Leaf (tuple items) text

theorem leaf_str {s text : Text} : Leaf (str s) text ↔ text = s :=
  ⟨fun h => by cases h; rfl, fun h => h ▸ .here _⟩

variable {text : Text}

theorem leaf_mapping {entries : List (Text × Argument)} :
    Leaf (mapping entries) text ↔ ∃ value ∈ valuesOf entries, Leaf value text := by
  constructor
  · rintro (_ | ⟨hmem, hleaf⟩)
    exact ⟨_, List.mem_map_of_mem hmem, hleaf⟩
  · rintro ⟨value, hmem, hleaf⟩
    obtain ⟨entry, hentry, rfl⟩ := List.mem_map.mp hmem
    exact .entry hentry hleaf

theorem leaf_list {items : List Argument} : Leaf (list items) text ↔ ∃ item ∈ items, Leaf item text :=
  ⟨fun h => by cases h with | item hmem hleaf => exact ⟨_, hmem, hleaf⟩, fun ⟨_, hmem, hleaf⟩ => .item hmem hleaf⟩

theorem leaf_tuple {items : List Argument} :
    Leaf (tuple items) text ↔ ∃ item ∈ items, Leaf item text :=
  ⟨fun h => by cases h with | member hmem hleaf => exact ⟨_, hmem, hleaf⟩, fun ⟨_, hmem, hleaf⟩ => .member hmem hleaf⟩

theorem not_leaf_other : ¬Leaf other text := nofun

theorem mem_leavesOf (pending : List Argument) :
    text ∈ leavesOf pending ↔ ∃ value ∈ pending, Leaf value text := by
  induction pending using leavesOf.induct with
  | case1 => simp only [leavesOf, List.not_mem_nil, false_and, exists_false]
  | case2 s pending ih => rw [leavesOf, List.mem_cons, ih, List.exists_mem_cons_iff, leaf_str]
  | case3 entries pending ih =>
    rw [leavesOf, ih, List.exists_mem_cons_iff, leaf_mapping]
    simp only [List.mem_append, or_and_right, exists_or]
    exact or_comm
  | case4 items pending ih =>
    rw [leavesOf, ih, List.exists_mem_cons_iff, leaf_list]
    simp only [List.mem_append, or_and_right, exists_or]
    exact or_comm
  | case5 items pending ih =>
    rw [leavesOf, ih, List.exists_mem_cons_iff, leaf_tuple]
    simp only [List.mem_append, or_and_right, exists_or]
    exact or_comm
  | case6 pending ih =>
    rw [leavesOf, ih, List.exists_mem_cons_iff]
    exact (or_iff_right not_leaf_other).symm

theorem mem_stringLeaves {value : Argument} : text ∈ stringLeaves value ↔ Leaf value text := by
  rw [stringLeaves, mem_leavesOf]
  exact ⟨fun ⟨_, hmem, hleaf⟩ => List.mem_singleton.mp hmem ▸ hleaf, fun h => ⟨value, List.mem_singleton_self _, h⟩⟩

end

/-! ### How much of a text is copied -/

/-- Some slice of `needle` of the length is in the haystack. -/
def occurs (needle haystack : Text) (length : ℕ) : Bool :=
  (List.range (needle.length + 1 - length)).any fun start => decide ((needle.drop start).take length <:+: haystack)

/-- `_longest_common_substring_length`. -/
def longestCommonSubstringLength (needle haystack : Text) : ℕ :=
  if needle.isEmpty || haystack.isEmpty then 0 else bisect (occurs needle haystack) 0 needle.length 0

theorem occurs_iff {needle haystack : Text} {k : ℕ} :
    occurs needle haystack k = true ↔ k ∈ commonLengths needle haystack := by
  simp only [occurs, List.any_eq_true, List.mem_range, decide_eq_true_eq]
  constructor
  · rintro ⟨start, hstart, hin⟩
    refine ⟨(needle.drop start).take k, ?_, (List.take_prefix _ _).isInfix.trans (List.drop_suffix _ _).isInfix, hin⟩
    rw [List.length_take, List.length_drop]
    omega
  · rintro ⟨u, rfl, hneedle, hhaystack⟩
    obtain ⟨start, hstart, hslice⟩ := infix_iff_slice.mp hneedle
    exact ⟨start, hstart, hslice.symm ▸ hhaystack⟩

theorem longestCommonSubstringLength_eq (needle haystack : Text) :
    longestCommonSubstringLength needle haystack = lcsLength needle haystack := by
  unfold longestCommonSubstringLength
  split
  case isTrue hempty =>
    -- an empty text has no longer substring than the empty one
    obtain ⟨u, hlength, hneedle, hhaystack⟩ := (isGreatest_lcsLength needle haystack).1
    have hu : u = [] := by
      rcases Bool.or_eq_true_iff.mp hempty with h | h
      · exact List.infix_nil.mp (List.isEmpty_iff.mp h ▸ hneedle)
      · exact List.infix_nil.mp (List.isEmpty_iff.mp h ▸ hhaystack)
    rw [← hlength, hu, List.length_nil]
  case isFalse =>
    have hdown : DownClosed (occurs needle haystack) := fun k m _ hle hm =>
      occurs_iff.mpr (mem_commonLengths_of_le hle (occurs_iff.mp hm))
    refine (bisect_isGreatest hdown needle.length).unique ?_
    obtain ⟨hmem, hupper⟩ := isGreatest_lcsLength needle haystack
    refine ⟨⟨lcsLength_le needle haystack, Or.inr (occurs_iff.mpr hmem)⟩, fun k hk => ?_⟩
    rcases hk.2 with rfl | hk
    · exact Nat.zero_le _
    · exact hupper (occurs_iff.mp hk)

section

variable {F : Type*} [LinearOrder F] (R : Ratios F)

/-- `_max_overlap_ratio`. -/
def maxOverlapRatio (argument : Text) (outputs : List Text) : F :=
  outputs.foldl (fun best output =>
    max best (if argument.isEmpty then R.zero else R.div (longestCommonSubstringLength argument output) argument.length))
    R.zero

variable {R}

theorem Ratios.div_lt_iff {a b n : ℕ} (ha : a ≤ n) (hb : b ≤ n) : R.div a n < R.div b n ↔ a < b := by
  refine ⟨fun h => ?_, fun h => R.div_lt h hb⟩
  by_contra hle
  rcases (Nat.not_lt.mp hle).lt_or_eq with hlt | rfl
  · exact absurd (R.div_lt hlt ha) h.asymm
  · exact lt_irrefl _ h

theorem Ratios.max_div {a b n : ℕ} (ha : a ≤ n) (hb : b ≤ n) :
    max (R.div a n) (R.div b n) = R.div (max a b) n := by
  rcases Nat.lt_or_ge a b with h | h
  · rw [max_eq_right (R.div_lt h hb).le, max_eq_right h.le]
  · rw [max_eq_left h]
    exact max_eq_left (not_lt.mp fun hlt => absurd ((Ratios.div_lt_iff ha hb).mp hlt) (Nat.not_lt.mpr h))

end

def maxOverlap (argument : Text) (outputs : List Text) : ℕ :=
  outputs.foldl (fun best output => max best (longestCommonSubstringLength argument output)) 0

theorem isGreatest_foldl_max {α : Type*} (f : α → ℕ) (items : List α) (best : ℕ) :
    IsGreatest {k | k = best ∨ ∃ item ∈ items, k = f item} (items.foldl (fun b item => max b (f item)) best) := by
  induction items generalizing best with
  | nil =>
    refine ⟨Or.inl rfl, ?_⟩
    rintro k (rfl | ⟨_, h, -⟩)
    · exact le_refl _
    · exact absurd h List.not_mem_nil
  | cons item items ih =>
    rw [List.foldl_cons]
    obtain ⟨hmem, hupper⟩ := ih (max best (f item))
    refine ⟨?_, ?_⟩
    · rcases hmem with h | ⟨other, hother, h⟩
      · rcases max_choice best (f item) with hbest | hitem
        · exact Or.inl (h.trans hbest)
        · exact Or.inr ⟨item, List.mem_cons_self, h.trans hitem⟩
      · exact Or.inr ⟨other, List.mem_cons_of_mem _ hother, h⟩
    · rintro k (rfl | ⟨other, hother, rfl⟩)
      · exact (le_max_left _ _).trans (hupper (Or.inl rfl))
      · rcases List.mem_cons.mp hother with rfl | hother
        · exact (le_max_right _ _).trans (hupper (Or.inl rfl))
        · exact hupper (Or.inr ⟨other, hother, rfl⟩)

theorem longestCommonSubstringLength_le (needle haystack : Text) :
    longestCommonSubstringLength needle haystack ≤ needle.length :=
  longestCommonSubstringLength_eq needle haystack ▸ lcsLength_le needle haystack

theorem maxOverlap_le (argument : Text) (outputs : List Text) : maxOverlap argument outputs ≤ argument.length := by
  rcases (isGreatest_foldl_max (longestCommonSubstringLength argument) outputs 0).1 with h | ⟨output, -, h⟩
  · exact (Nat.le_of_eq h).trans (Nat.zero_le _)
  · exact (Nat.le_of_eq h).trans (longestCommonSubstringLength_le argument output)

theorem maxOverlapRatio_eq {F : Type*} [LinearOrder F] (R : Ratios F) {argument : Text} (hne : argument ≠ [])
    (outputs : List Text) : maxOverlapRatio R argument outputs = R.div (maxOverlap argument outputs) argument.length := by
  have hloop : ∀ best ≤ argument.length,
      outputs.foldl (fun b output => max b (R.div (longestCommonSubstringLength argument output) argument.length))
          (R.div best argument.length) =
        R.div (outputs.foldl (fun b output => max b (longestCommonSubstringLength argument output)) best)
          argument.length := by
    induction outputs with
    | nil => exact fun best _ => rfl
    | cons output outputs ih =>
      intro best hbest
      have hout := longestCommonSubstringLength_le argument output
      rw [List.foldl_cons, List.foldl_cons, Ratios.max_div hbest hout]
      exact ih _ (Nat.max_le.mpr ⟨hbest, hout⟩)
  have hnonempty : argument.isEmpty = false := List.isEmpty_eq_false_iff.mpr hne
  simp only [maxOverlapRatio, maxOverlap, hnonempty, Bool.false_eq_true, if_false]
  rw [← hloop 0 (Nat.zero_le _), R.zero_div]

/-! ### The middleware -/

structure ConfusedDeputyGuardMiddleware {F : Type*} [LinearOrder F] (R : Ratios F) where
  maxRatio : F
  minArgLength : ℕ
  abortReason : String
  maxRatio_pos : R.zero < maxRatio
  maxRatio_le_one : maxRatio ≤ R.one
  minArgLength_pos : 1 ≤ minArgLength

namespace ConfusedDeputyGuardMiddleware

variable {F : Type*} [LinearOrder F] {R : Ratios F}

/-- `ConfusedDeputyGuardMiddleware(...)`. -/
def create (R : Ratios F) (maxExternalContentRatio : F) (minArgumentLength : ℤ)
    (abortReason : String := "confused_deputy_detected") : Except String (ConfusedDeputyGuardMiddleware R) :=
  if hratio : maxExternalContentRatio ≤ R.zero ∨ R.one < maxExternalContentRatio then
    .error "max_external_content_ratio must be in (0.0, 1.0]."
  else if hlength : minArgumentLength < 1 then .error "min_argument_length must be at least 1."
  else .ok
    { maxRatio := maxExternalContentRatio
      minArgLength := minArgumentLength.toNat
      abortReason := abortReason
      maxRatio_pos := not_le.mp fun h => hratio (Or.inl h)
      maxRatio_le_one := not_lt.mp fun h => hratio (Or.inr h)
      minArgLength_pos := by omega }

variable (guard : ConfusedDeputyGuardMiddleware R)

/-- `before_run`. -/
def beforeRun (ctx : Context) : RunState := { userMessage := ctx.message }

/-- `after_tool_call`, as the entry it leaves in the run state. -/
def afterToolCall (ctx : Context) : Option RunState :=
  match ctx.toolResult with
  | some result =>
    if result.output.isEmpty || ctx.toolIsInternal then ctx.runState
    else some { ctx.state with toolOutputs := ctx.state.toolOutputs ++ [result.output] }
  | none => ctx.runState

/-- The body of the loops of `_check_arguments`: the abort for one text of one argument. -/
def checkText (call : ToolCall) (toolOutputs : List Text) (userMessage argName text : Text) : Option (Decision F) :=
  if text.length < guard.minArgLength then none
  else
    let ratio := maxOverlapRatio R text toolOutputs
    -- text at least as attributable to the user's own message as to tool content is skipped
    if guard.maxRatio < ratio ∧ R.div (longestCommonSubstringLength text userMessage) text.length < ratio then
      some (.abort guard.abortReason
        { toolName := call.toolName
          argumentName := argName
          overlapRatio := R.round4 ratio
          threshold := guard.maxRatio })
    else none

/-- `_check_arguments`. -/
def checkArguments (call : ToolCall) (toolOutputs : List Text) (userMessage : Text) : Decision F :=
  (call.arguments.findSome? fun argument =>
    (stringLeaves argument.2).findSome? (guard.checkText call toolOutputs userMessage argument.1)).getD .continue_

/-- `before_tool_call`. -/
def beforeToolCall (ctx : Context) : Decision F :=
  match ctx.toolCall with
  | none => .continue_
  | some call =>
    if ctx.toolIsInternal || ctx.state.toolOutputs.isEmpty then .continue_
    else guard.checkArguments call ctx.state.toolOutputs ctx.state.userMessage

/-- Copied from the outputs: long enough, for the greater part in common with an output, and more so than with the
user's message. -/
def Copied (outputs : List Text) (userMessage text : Text) : Prop :=
  guard.minArgLength ≤ text.length ∧
    ∃ L, IsGreatest {k | ∃ output ∈ outputs, k = lcsLength text output} L ∧
      guard.maxRatio < R.div L text.length ∧ lcsLength text userMessage < L

variable {guard}

variable {outputs : List Text}

theorem isGreatest_maxOverlap {argument : Text} (hne : outputs ≠ []) :
    IsGreatest {k | ∃ output ∈ outputs, k = lcsLength argument output} (maxOverlap argument outputs) := by
  obtain ⟨hmem, hupper⟩ := isGreatest_foldl_max (longestCommonSubstringLength argument) outputs 0
  refine ⟨?_, fun k ⟨output, hout, hk⟩ =>
    hupper (Or.inr ⟨output, hout, hk.trans (longestCommonSubstringLength_eq _ _).symm⟩)⟩
  rcases hmem with hzero | ⟨output, hout, h⟩
  · -- an overlap is at least zero, so the first output has the greatest one too
    obtain ⟨output, rest, rfl⟩ := List.exists_cons_of_ne_nil hne
    have hle := hupper (Or.inr ⟨output, List.mem_cons_self, rfl⟩)
    refine ⟨output, List.mem_cons_self, ?_⟩
    rw [← longestCommonSubstringLength_eq]
    exact le_antisymm ((Nat.le_of_eq hzero).trans (Nat.zero_le _)) hle
  · exact ⟨output, hout, h.trans (longestCommonSubstringLength_eq _ _)⟩

variable {call : ToolCall}

theorem isSome_checkText {userMessage argName text : Text} (hne : outputs ≠ []) :
    (guard.checkText call outputs userMessage argName text).isSome ↔ guard.Copied outputs userMessage text := by
  unfold checkText Copied
  split
  case isTrue hshort => exact ⟨nofun, fun h => absurd h.1 (Nat.not_le.mpr hshort)⟩
  case isFalse hlong =>
    have htext : text ≠ [] := by
      rintro rfl
      exact hlong guard.minArgLength_pos
    have huser : R.div (longestCommonSubstringLength text userMessage) text.length <
        R.div (maxOverlap text outputs) text.length ↔ lcsLength text userMessage < maxOverlap text outputs := by
      rw [Ratios.div_lt_iff (longestCommonSubstringLength_le _ _) (maxOverlap_le _ _), longestCommonSubstringLength_eq]
    simp only [maxOverlapRatio_eq R htext, huser]
    constructor
    · intro h
      split at h
      case isTrue hcopied => exact ⟨Nat.not_lt.mp hlong, _, isGreatest_maxOverlap hne, hcopied⟩
      case isFalse => cases h
    · rintro ⟨-, L, hL, hcopied⟩
      rw [(isGreatest_maxOverlap hne).unique hL, if_pos hcopied]
      rfl

theorem isAbort_checkText {userMessage argName text : Text} {d : Decision F}
    (h : guard.checkText call outputs userMessage argName text = some d) : d.isAbort = true := by
  unfold checkText at h
  split at h
  · cases h
  · dsimp only at h
    split at h
    · rw [← Option.some.inj h]
      rfl
    · cases h

theorem isAbort_checkArguments {userMessage : Text} (hne : outputs ≠ []) :
    (guard.checkArguments call outputs userMessage).isAbort = true ↔
      ∃ argument ∈ call.arguments, ∃ text, Leaf argument.2 text ∧ guard.Copied outputs userMessage text := by
  have hloops : (call.arguments.findSome? fun argument =>
      (stringLeaves argument.2).findSome? (guard.checkText call outputs userMessage argument.1)).isSome ↔
        ∃ argument ∈ call.arguments, ∃ text, Leaf argument.2 text ∧ guard.Copied outputs userMessage text := by
    simp only [List.findSome?_isSome_iff, mem_stringLeaves, isSome_checkText hne]
  rw [← hloops, checkArguments]
  cases hfound : call.arguments.findSome? fun argument =>
      (stringLeaves argument.2).findSome? (guard.checkText call outputs userMessage argument.1) with
  | none => simp only [Option.getD_none, Decision.isAbort, Bool.false_eq_true, Option.isSome_none]
  | some d =>
    obtain ⟨argument, -, hleaves⟩ := List.exists_of_findSome?_eq_some hfound
    obtain ⟨text, -, htext⟩ := List.exists_of_findSome?_eq_some hleaves
    simp only [Option.getD_some, isAbort_checkText htext, Option.isSome_some]

theorem not_copied_nil {userMessage text : Text} : ¬guard.Copied [] userMessage text := by
  rintro ⟨-, L, ⟨⟨output, hmem, -⟩, -⟩, -⟩
  exact List.not_mem_nil hmem

theorem isAbort_beforeToolCall (ctx : Context) :
    (guard.beforeToolCall ctx).isAbort = true ↔
      ctx.toolIsInternal = false ∧ ∃ call, ctx.toolCall = some call ∧
        ∃ argument ∈ call.arguments, ∃ text, Leaf argument.2 text ∧
          guard.Copied ctx.state.toolOutputs ctx.state.userMessage text := by
  unfold beforeToolCall
  split
  case h_1 hcall => exact ⟨nofun, fun ⟨_, _, h, _⟩ => nomatch hcall.symm.trans h⟩
  case h_2 call hcall =>
    simp only [hcall, Option.some.injEq, exists_eq_left']
    split
    case isTrue hskip =>
      refine ⟨nofun, fun ⟨hexternal, argument, _, text, _, hcopied⟩ => ?_⟩
      rcases Bool.or_eq_true_iff.mp hskip with hinternal | hempty
      · exact absurd (hinternal.symm.trans hexternal) (by decide)
      · exact absurd (List.isEmpty_iff.mp hempty ▸ hcopied) not_copied_nil
    case isFalse hcheck =>
      obtain ⟨hexternal, hne⟩ := Bool.or_eq_false_iff.mp (Bool.eq_false_iff.mpr hcheck)
      rw [isAbort_checkArguments (List.isEmpty_eq_false_iff.mp hne)]
      exact ⟨fun h => ⟨hexternal, h⟩, fun h => h.2⟩

/-- The guard aborts exactly the external calls with a copied text in their arguments, and the overlaps it weighs are
those of the longest common substrings. -/
theorem aborts_iff_copied (guard : ConfusedDeputyGuardMiddleware R) :
    (∀ ctx : Context, (guard.beforeToolCall ctx).isAbort = true ↔
      ctx.toolIsInternal = false ∧ ∃ call, ctx.toolCall = some call ∧
        ∃ argument ∈ call.arguments, ∃ text, Leaf argument.2 text ∧
          guard.Copied ctx.state.toolOutputs ctx.state.userMessage text) ∧
      ∀ needle haystack : Text,
        IsGreatest (commonLengths needle haystack) (longestCommonSubstringLength needle haystack) := by
  refine ⟨isAbort_beforeToolCall, fun needle haystack => ?_⟩
  rw [longestCommonSubstringLength_eq]
  exact isGreatest_lcsLength needle haystack

end ConfusedDeputyGuardMiddleware

/-! ### An internal call -/

section

open Json (word)
open ConfusedDeputyGuardMiddleware

def exactRatios (round4 : ℚ → ℚ) : Ratios ℚ where
  zero := 0
  one := 1
  div a n := a / n
  round4 := round4
  zero_div n := by simp only [Nat.cast_zero, zero_div]
  div_lt {a b n} hlt hle := by
    have hn : (0 : ℚ) < n := Nat.cast_pos.mpr (by omega)
    exact div_lt_div_of_pos_right (Nat.cast_lt.mpr hlt) hn

def strictGuard : ConfusedDeputyGuardMiddleware (exactRatios fun ratio => ratio) where
  maxRatio := 1 / 2
  minArgLength := 2
  abortReason := "confused_deputy_detected"
  maxRatio_pos := by decide +kernel
  maxRatio_le_one := by decide +kernel
  minArgLength_pos := by decide

def internalContext : Context where
  toolCall := some ⟨word ['n', 'o', 't', 'e'], [(word ['t'], .list [.str (word ['r', 'm'])])]⟩
  toolIsInternal := true
  runState := some { toolOutputs := [word ['r', 'm']] }

/-- The copied argument of an internal call passes. -/
theorem internalContext_not_aborted :
    (strictGuard.beforeToolCall internalContext).isAbort = false ∧
      ∃ call, internalContext.toolCall = some call ∧ ∃ argument ∈ call.arguments, ∃ text, Leaf argument.2 text ∧
        strictGuard.Copied internalContext.state.toolOutputs internalContext.state.userMessage text := by
  have huser : longestCommonSubstringLength (word ['r', 'm']) [] = 0 := rfl
  refine ⟨rfl, _, rfl, _, List.mem_singleton_self _, word ['r', 'm'], .item (List.mem_singleton_self _) (.here _),
    by decide, _, isGreatest_maxOverlap (List.cons_ne_nil _ _), by decide +kernel, ?_⟩
  rw [show internalContext.state.userMessage = [] from rfl, ← longestCommonSubstringLength_eq, huser]
  decide +kernel

end

/-! ### The outputs of a run -/

section

def externalOutput (ctx : Context) : Option Text :=
  match ctx.toolResult with
  | some result => if result.output.isEmpty || ctx.toolIsInternal then none else some result.output
  | none => none

/-- The run state after the start of a run and the tool calls `calls`. -/
def recorded (start : Context) (calls : List Context) : Option RunState :=
  calls.foldl (fun state ctx => ConfusedDeputyGuardMiddleware.afterToolCall { ctx with runState := state })
    (some (ConfusedDeputyGuardMiddleware.beforeRun start))

theorem afterToolCall_some (ctx : Context) (state : RunState) :
    ConfusedDeputyGuardMiddleware.afterToolCall { ctx with runState := some state } =
      some { state with toolOutputs := state.toolOutputs ++ (externalOutput ctx).toList } := by
  unfold ConfusedDeputyGuardMiddleware.afterToolCall externalOutput
  dsimp only
  split
  case h_1 result _ =>
    split
    · simp only [Option.toList_none, List.append_nil]
    · rfl
  case h_2 => simp only [Option.toList_none, List.append_nil]

theorem recorded_eq (start : Context) (calls : List Context) :
    recorded start calls = some ⟨start.message, calls.filterMap externalOutput⟩ := by
  have hloop : ∀ state : RunState,
      calls.foldl (fun state ctx => ConfusedDeputyGuardMiddleware.afterToolCall { ctx with runState := state })
          (some state) =
        some { state with toolOutputs := state.toolOutputs ++ calls.filterMap externalOutput } := by
    induction calls with
    | nil => exact fun state => by simp only [List.foldl_nil, List.filterMap_nil, List.append_nil]
    | cons call calls ih =>
      intro state
      rw [List.foldl_cons, afterToolCall_some, ih]
      cases hout : externalOutput call with
      | none => simp only [Option.toList_none, List.append_nil, List.filterMap_cons_none hout]
      | some output =>
        simp only [Option.toList_some, List.append_assoc, List.singleton_append, List.filterMap_cons_some hout]
  exact hloop _

/-- The next call of a run is weighed against what its external calls have put out. -/
theorem aborts_of_run {F : Type*} [LinearOrder F] {R : Ratios F} (guard : ConfusedDeputyGuardMiddleware R)
    (start : Context) (calls : List Context) (ctx : Context) :
    (guard.beforeToolCall { ctx with runState := recorded start calls }).isAbort = true ↔
      ctx.toolIsInternal = false ∧ ∃ call, ctx.toolCall = some call ∧
        ∃ argument ∈ call.arguments, ∃ text, Leaf argument.2 text ∧
          guard.Copied (calls.filterMap externalOutput) start.message text := by
  rw [ConfusedDeputyGuardMiddleware.isAbort_beforeToolCall, recorded_eq]
  exact Iff.rfl

end

end VidbyteSdk.Middleware.ConfusedDeputy
