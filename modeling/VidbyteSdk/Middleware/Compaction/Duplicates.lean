import Mathlib.Data.List.Flatten
import VidbyteSdk.Lib.Firsts
import VidbyteSdk.Middleware.Compaction.Strategies

/-!
# Repeated tool calls

`DeduplicateToolCallsCompaction` on a history in which no tool result makes a call of its own: of the calls with the same
signature and the same results the first is kept with its results, the later ones go with theirs, and everything else
stays where it is.
-/

namespace VidbyteSdk.Middleware.Compaction

open VidbyteSdk.Lib
open Json (lit)

def makesCall (message : ContextMessage) : Bool := (toolCallSignature message).isSome

def callGroups : List ContextMessage → List (List ContextMessage) := groupRuns makesCall ContextMessage.isToolResult

def callKey (group : List ContextMessage) : Option (Text × List Text) :=
  (group.head?.bind toolCallSignature).map fun signature => (signature, group.tail.map ContextMessage.content)

def ResultsOnly (messages : List ContextMessage) : Prop :=
  ∀ message ∈ messages, message.isToolResult = true → toolCallSignature message = none

theorem ResultsOnly.of_sublist {xs ys : List ContextMessage} (h : ResultsOnly ys) (hsublist : xs.Sublist ys) :
    ResultsOnly xs :=
  fun message hmessage => h message (hsublist.subset hmessage)

/-! ### The scan -/

attribute [local grind =] dedupeFrom

variable {seen : List (Text × List Text)}

variable {message : ContextMessage}

theorem dedupeFrom_none (h : toolCallSignature message = none)
    (rest : List ContextMessage) : dedupeFrom seen 0 (message :: rest) = message :: dedupeFrom seen 0 rest := by
  rw [dedupeFrom, h]
  rfl

theorem dedupeFrom_results {results : List ContextMessage}
    (h : ∀ result ∈ results, toolCallSignature result = none) (rest : List ContextMessage) :
    dedupeFrom seen 0 (results ++ rest) = results ++ dedupeFrom seen 0 rest := by
  induction results with
  | nil => rfl
  | cons result results ih =>
    obtain ⟨hresult, hresults⟩ := List.forall_mem_cons.mp h
    rw [List.cons_append, dedupeFrom_none hresult, ih hresults, List.cons_append]

theorem dedupeFrom_removing {results : List ContextMessage}
    (h : ∀ result ∈ results, toolCallSignature result = none) (rest : List ContextMessage) :
    dedupeFrom seen results.length (results ++ rest) = dedupeFrom seen 0 rest := by
  induction results with
  | nil => rfl
  | cons result results ih =>
    obtain ⟨hresult, hresults⟩ := List.forall_mem_cons.mp h
    rw [List.cons_append, List.length_cons, dedupeFrom, hresult]
    exact ih hresults

variable {rest : List ContextMessage}

theorem ResultsOnly.takeWhile (h : ResultsOnly rest) :
    ∀ result ∈ rest.takeWhile ContextMessage.isToolResult, toolCallSignature result = none :=
  fun result hresult => h result ((List.takeWhile_sublist _).subset hresult) (List.mem_takeWhile_imp hresult)

theorem dedupeFrom_seen {signature : Text}
    (h : toolCallSignature message = some signature)
    (hseen : (signature, (rest.takeWhile ContextMessage.isToolResult).map ContextMessage.content) ∈ seen)
    (hresults : ResultsOnly rest) :
    dedupeFrom seen 0 (message :: rest) = dedupeFrom seen 0 (rest.dropWhile ContextMessage.isToolResult) := by
  have hremoved : dedupeFrom seen _ _ = _ :=
    dedupeFrom_removing hresults.takeWhile (rest.dropWhile ContextMessage.isToolResult)
  rw [List.takeWhile_append_dropWhile] at hremoved
  rw [dedupeFrom]
  simp only [h, if_pos hseen, Nat.zero_max, Nat.add_sub_cancel]
  exact hremoved

theorem dedupeFrom_new {signature : Text}
    (h : toolCallSignature message = some signature)
    (hseen : (signature, (rest.takeWhile ContextMessage.isToolResult).map ContextMessage.content) ∉ seen)
    (hresults : ResultsOnly rest) :
    dedupeFrom seen 0 (message :: rest) = message :: rest.takeWhile ContextMessage.isToolResult ++
      dedupeFrom ((signature, (rest.takeWhile ContextMessage.isToolResult).map ContextMessage.content) :: seen) 0
        (rest.dropWhile ContextMessage.isToolResult) := by
  rw [List.cons_append, ← dedupeFrom_results hresults.takeWhile, List.takeWhile_append_dropWhile, dedupeFrom]
  simp only [h, if_neg hseen]
  rfl

theorem dedupeFrom_eq (seen : List (Text × List Text)) {messages : List ContextMessage} (h : ResultsOnly messages) :
    dedupeFrom seen 0 messages = (keepFirsts callKey seen (callGroups messages)).flatten := by
  unfold callGroups
  fun_induction groupRuns makesCall ContextMessage.isToolResult messages generalizing seen with
  | case1 => rfl
  | case2 message rest hcall ih =>
    have hrest : ResultsOnly rest := h.of_sublist (List.sublist_cons_self message rest)
    have hlater := fun seen => ih seen (hrest.of_sublist (List.dropWhile_sublist _))
    obtain ⟨signature, hsignature⟩ := Option.isSome_iff_exists.mp hcall
    have hkey : callKey (message :: rest.takeWhile ContextMessage.isToolResult) =
        some (signature, (rest.takeWhile ContextMessage.isToolResult).map ContextMessage.content) := by
      simp only [callKey, List.head?_cons, Option.bind_some, hsignature, Option.map_some, List.tail_cons]
    by_cases hseen : (signature, (rest.takeWhile ContextMessage.isToolResult).map ContextMessage.content) ∈ seen
    · rw [keepFirsts_seen hkey hseen, dedupeFrom_seen hsignature hseen hrest, hlater]
    · rw [keepFirsts_new hkey hseen, dedupeFrom_new hsignature hseen hrest, hlater, List.flatten_cons]
  | case3 message rest hcall ih =>
    have hrest : ResultsOnly rest := h.of_sublist (List.sublist_cons_self message rest)
    have hsignature : toolCallSignature message = none := by simpa [makesCall] using hcall
    have hkey : callKey [message] = none := by
      simp only [callKey, List.head?_cons, Option.bind_some, hsignature, Option.map_none]
    rw [keepFirsts_none hkey, dedupeFrom_none hsignature, ih seen hrest, List.flatten_cons, List.singleton_append]

/-! ### What is kept -/

theorem heads_of_callKey {group : List ContextMessage} {key : Text × List Text} (h : callKey group = some key) :
    heads makesCall group = true := by
  obtain ⟨signature, hsignature, -⟩ := Option.map_eq_some_iff.mp h
  obtain ⟨message, hmessage, hcall⟩ := Option.bind_eq_some_iff.mp hsignature
  rw [heads, hmessage, Option.any_some, makesCall, hcall]
  rfl

theorem apart_keepFirsts {groups : List (List ContextMessage)} (h : Apart makesCall ContextMessage.isToolResult groups)
    (seen : List (Text × List Text)) :
    Apart makesCall ContextMessage.isToolResult (keepFirsts callKey seen groups) ∧
      ((∀ group ∈ groups.head?, heads ContextMessage.isToolResult group = false) →
        ∀ group ∈ (keepFirsts callKey seen groups).head?, heads ContextMessage.isToolResult group = false) := by
  induction groups generalizing seen with
  | nil => exact ⟨List.isChain_nil, fun h => h⟩
  | cons group groups ih =>
    obtain ⟨hfirst, htail⟩ := List.isChain_cons.mp h
    have hkept : ∀ seen, Apart makesCall ContextMessage.isToolResult (group :: keepFirsts callKey seen groups) :=
      fun seen => List.isChain_cons.mpr ⟨fun next hnext hcall =>
        (ih htail seen).2 (fun g hg => hfirst g hg hcall) next hnext, (ih htail seen).1⟩
    cases hkey : callKey group with
    | none =>
      rw [keepFirsts_none hkey]
      exact ⟨hkept seen, fun h => h⟩
    | some key =>
      by_cases hseen : key ∈ seen
      · rw [keepFirsts_seen hkey hseen]
        exact ⟨(ih htail seen).1, fun _ => (ih htail seen).2 fun g hg => hfirst g hg (heads_of_callKey hkey)⟩
      · rw [keepFirsts_new hkey hseen]
        exact ⟨hkept _, fun h => h⟩

theorem callGroups_keepFirsts (messages : List ContextMessage) :
    callGroups (keepFirsts callKey [] (callGroups messages)).flatten = keepFirsts callKey [] (callGroups messages) :=
  groupRuns_flatten _ _
    (fun _ hgroup => isGroup_of_mem_groupRuns _ _ ((keepFirsts_sublist callKey [] _).subset hgroup))
    (apart_keepFirsts (apart_groupRuns _ _ messages) []).1

theorem flatten_callGroups (messages : List ContextMessage) : (callGroups messages).flatten = messages :=
  flatten_groupRuns _ _ messages

/-- Exactly the first call of each signature and results is kept, whole, with everything else in its place, and nothing
goes when it is done again. -/
theorem deduplicateToolCalls_exact (messages : List ContextMessage) (h : ResultsOnly messages) :
    (callGroups messages).flatten = messages ∧
      deduplicateToolCalls messages =
        (pick (isFirst callKey (callGroups messages)) (callGroups messages)).flatten ∧
      deduplicateToolCalls (deduplicateToolCalls messages) = deduplicateToolCalls messages := by
  have hkept : deduplicateToolCalls messages = (keepFirsts callKey [] (callGroups messages)).flatten :=
    dedupeFrom_eq [] h
  have hsublist : (deduplicateToolCalls messages).Sublist messages := by
    have := (keepFirsts_sublist callKey [] (callGroups messages)).flatten
    rwa [flatten_callGroups, ← hkept] at this
  refine ⟨flatten_callGroups messages, hkept.trans (by rw [keepFirsts_eq_pick]), ?_⟩
  rw [deduplicateToolCalls, dedupeFrom_eq [] (h.of_sublist hsublist), hkept, callGroups_keepFirsts,
    keepFirsts_keepFirsts callKey [] (List.Subset.refl _)]

def callPart (name : Text) : Json := .obj [(lit "functionCall", .obj [(lit "name", .str name)])]

def responsePart (output : Text) : Json :=
  .obj [(lit "functionResponse", .obj [(lit "response", .obj [(lit "output", .str output)])])]

def partsMessage (parts : List Json) : ContextMessage :=
  providerToContextMessage plainBuiltins [] (.obj [(lit "role", .str (lit "user")), (lit "parts", .arr parts)]) 0

theorem deduplicateToolCalls_exact_repeated :
    (deduplicateToolCalls (deduplicateToolCalls
      [partsMessage [callPart (lit "a")], partsMessage [responsePart (lit "x")], partsMessage [callPart (lit "a")]])) =
    deduplicateToolCalls
      [partsMessage [callPart (lit "a")], partsMessage [responsePart (lit "x")], partsMessage [callPart (lit "a")]] :=
  (deduplicateToolCalls_exact _ (forall_mem_of_all (by decide +kernel))).2.2

def mixedHistory : List ContextMessage :=
  [partsMessage [callPart (lit "b")], partsMessage [responsePart (lit "x"), callPart (lit "x")],
    partsMessage [callPart (lit "c")], partsMessage [responsePart (lit "y"), callPart (lit "y")],
    partsMessage [callPart (lit "a")], partsMessage [responsePart (lit "x"), callPart (lit "x")],
    partsMessage [callPart (lit "a")], partsMessage [responsePart (lit "y"), callPart (lit "y")]]

/-- The second ones go from behind two equal calls, of which one is then a repeat. -/
theorem mixedHistory_notIdempotent :
    (deduplicateToolCalls mixedHistory).length = 6 ∧
      (deduplicateToolCalls (deduplicateToolCalls mixedHistory)).length = 5 := by
  decide +kernel

end VidbyteSdk.Middleware.Compaction
