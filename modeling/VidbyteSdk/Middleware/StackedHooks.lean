import VidbyteSdk.Middleware.Pipeline

/-!
# Stacked middleware compose

The loop of the pipeline carries two results: the decisions merged so far and the context the next
middleware sees. Merging transforms composes what they do to a context, so the two agree; `Ran` says what
the calls of a run are and how they decide, and `lastGiven` names the field a merged transform carries.
-/

namespace VidbyteSdk.Middleware

open VidbyteSdk.Lib

variable {W C M R V : Type}

/-! ### Transforms -/

theorem applyTransform_merge (ctx : MiddlewareContext C M R)
    (current next : Option (MiddlewareTransform M R V)) :
    applyTransform ctx (mergeTransforms current next) =
      applyTransform (applyTransform ctx current) next := by
  cases current with
  | none => rfl
  | some current =>
    cases next with
    | none => rfl
    | some next => simp [applyTransform, mergeTransforms, Option.or_assoc, Option.getD_or]

def lastGiven {α : Type} (field : MiddlewareTransform M R V → Option α)
    (transforms : List (MiddlewareTransform M R V)) : Option α :=
  (transforms.filterMap field).getLast?

theorem lastGiven_concat {α : Type} (field : MiddlewareTransform M R V → Option α)
    (transforms : List (MiddlewareTransform M R V)) (next : MiddlewareTransform M R V) :
    lastGiven field (transforms ++ [next]) = (field next).or (lastGiven field transforms) := by
  unfold lastGiven
  rw [List.filterMap_append, List.getLast?_append]
  cases h : field next with
  | none => simp [h]
  | some value => simp [h]

def mergedMetadata (transforms : List (MiddlewareTransform M R V)) : Metadata V :=
  (transforms.drop 1).foldl (fun metadata next => mergeMetadata metadata next.metadata)
    ((transforms.head?.map (·.metadata)).getD [])

/-- The one transform that does what the given ones do in order; none does nothing. -/
def composed : List (MiddlewareTransform M R V) → Option (MiddlewareTransform M R V)
  | [] => none
  | first :: transforms => some
    { modelVisibleToolResult := lastGiven (·.modelVisibleToolResult) (first :: transforms)
      providerMessages := lastGiven (·.providerMessages) (first :: transforms)
      system := lastGiven (·.system) (first :: transforms)
      metadata := mergedMetadata (first :: transforms) }

theorem composed_singleton (transform : MiddlewareTransform M R V) :
    composed [transform] = some transform := by
  have hlast : ∀ {α : Type} (field : MiddlewareTransform M R V → Option α),
      lastGiven field [transform] = field transform := by
    intro α field
    unfold lastGiven
    cases h : field transform <;> simp [h]
  simp only [composed, hlast]
  rfl

theorem composed_concat (transforms : List (MiddlewareTransform M R V))
    (next : MiddlewareTransform M R V) :
    composed (transforms ++ [next]) = mergeTransforms (composed transforms) (some next) := by
  cases transforms with
  | nil => exact composed_singleton next
  | cons first transforms =>
    have hmetadata : mergedMetadata (first :: transforms ++ [next]) =
        mergeMetadata (mergedMetadata (first :: transforms)) next.metadata := by
      simp [mergedMetadata, List.foldl_append]
    simp only [List.cons_append, composed] at hmetadata ⊢
    rw [hmetadata, ← List.cons_append]
    simp only [lastGiven_concat, mergeTransforms]

/-! ### Calls -/

namespace HookCall

variable (call : HookCall W C M R V)

/-- The call ended in a decision to go on: to continue, also after an error that fails open, or to sleep. -/
def Passes : Prop :=
  ∃ decision, call.outcome = .ok decision ∧ (decision.action = .continue ∨ decision.action = .sleep)

def transform? : Option (MiddlewareTransform M R V) :=
  match call.outcome with
  | .ok decision => decision.transform
  | .error _ => none

end HookCall

def transformsOf (calls : List (HookCall W C M R V)) : List (MiddlewareTransform M R V) :=
  calls.filterMap HookCall.transform?

def rewritten (ctx : MiddlewareContext C M R) (calls : List (HookCall W C M R V)) :
    MiddlewareContext C M R :=
  (transformsOf calls).foldl (fun ctx transform => applyTransform ctx (some transform)) ctx

def mergeCall (aggregate : MiddlewareDecision M R V) (call : HookCall W C M R V) :
    MiddlewareDecision M R V :=
  match call.outcome with
  | .ok decision =>
    if decision.action = .continue then mergeContinueDecisions aggregate decision else aggregate
  | .error _ => aggregate

/-- What the calls of a run are and what they come to. -/
structure Ran (middleware : List (AgentMiddleware W C M R V)) (aggregate : MiddlewareDecision M R V)
    (ctx : MiddlewareContext C M R) (calls : List (HookCall W C M R V))
    (result : Except HookError (MiddlewareDecision M R V)) : Prop where
  order : ∀ (k : Nat) call, calls[k]? = some call →
    middleware[k]? = some call.middleware ∧ call.context = rewritten ctx (calls.take k)
  passed : (∀ call ∈ calls, call.Passes) →
    calls.length = middleware.length ∧ result = .ok (calls.foldl mergeCall aggregate)
  stopped : ∀ (k : Nat) call, calls[k]? = some call → ¬call.Passes →
    calls.length = k + 1 ∧ result = call.outcome

namespace Ran

variable {first : AgentMiddleware W C M R V} {rest : List (AgentMiddleware W C M R V)}
  {aggregate : MiddlewareDecision M R V} {ctx : MiddlewareContext C M R}
  {calls : List (HookCall W C M R V)} {result : Except HookError (MiddlewareDecision M R V)}

theorem nil : Ran ([] : List (AgentMiddleware W C M R V)) aggregate ctx [] (.ok aggregate) where
  order := fun _ _ h => by cases h
  passed := fun _ => ⟨rfl, rfl⟩
  stopped := fun _ _ h => by cases h

theorem stop {outcome : Except HookError (MiddlewareDecision M R V)}
    (h : ¬(⟨first, ctx, outcome⟩ : HookCall W C M R V).Passes) :
    Ran (first :: rest) aggregate ctx [⟨first, ctx, outcome⟩] outcome where
  order := by
    intro k call hcall
    cases k with
    | zero =>
      cases hcall
      exact ⟨rfl, rfl⟩
    | succ k => cases hcall
  passed := fun hall => absurd (hall _ List.mem_cons_self) h
  stopped := by
    intro k call hcall _
    cases k with
    | zero =>
      cases hcall
      exact ⟨rfl, rfl⟩
    | succ k => cases hcall

theorem cons {decision : MiddlewareDecision M R V}
    (hpass : (⟨first, ctx, .ok decision⟩ : HookCall W C M R V).Passes)
    (h : Ran rest (mergeCall aggregate ⟨first, ctx, .ok decision⟩)
      (rewritten ctx [⟨first, ctx, .ok decision⟩]) calls result) :
    Ran (first :: rest) aggregate ctx (⟨first, ctx, .ok decision⟩ :: calls) result where
  order := by
    intro k call hcall
    cases k with
    | zero =>
      cases hcall
      exact ⟨rfl, rfl⟩
    | succ k =>
      obtain ⟨hmiddleware, hcontext⟩ := h.order k call hcall
      refine ⟨hmiddleware, hcontext.trans ?_⟩
      unfold rewritten
      rw [← List.foldl_append, List.take_succ_cons]
      unfold transformsOf
      rw [← List.filterMap_append]
      rfl
  passed := by
    intro hall
    obtain ⟨hlength, hresult⟩ := h.passed fun call hcall => hall call (List.mem_cons_of_mem _ hcall)
    exact ⟨congrArg (· + 1) hlength, hresult⟩
  stopped := by
    intro k call hcall hstop
    cases k with
    | zero =>
      cases hcall
      exact absurd hpass hstop
    | succ k =>
      obtain ⟨hlength, hresult⟩ := h.stopped k call hcall hstop
      exact ⟨congrArg (· + 1) hlength, hresult⟩

end Ran

/-- What a call comes to is what its hook's reply is decided to be; a sleep may raise instead. -/
def HookCall.Replied (hook : MiddlewareHook) (call : HookCall W C M R V) : Prop :=
  ∃ world, call.middleware.decisionOn (call.middleware.call hook call.context world).1 = call.outcome ∨
    ∃ decision e, call.middleware.decisionOn (call.middleware.call hook call.context world).1 =
      .ok decision ∧ decision.action = .sleep ∧ call.outcome = .error e

/-! ### The loop -/

theorem invokeHook_spec (time : PipelineClock W) (hook : MiddlewareHook)
    (middleware : AgentMiddleware W C M R V) (ctx : MiddlewareContext C M R)
    (run : PipelineRun W C M R V) :
    (invokeHook time hook middleware ctx run).2.calls = run.calls ∧
      ∃ world, middleware.decisionOn (middleware.call hook ctx world).1 =
        (invokeHook time hook middleware ctx run).1 := by
  unfold invokeHook
  simp only
  cases hdecision : middleware.decisionOn (middleware.call hook ctx (time.clock run.world).2).1 with
  | error e => exact ⟨rfl, _, hdecision⟩
  | ok decision => exact ⟨rfl, _, hdecision⟩

theorem rewritten_continue (first : AgentMiddleware W C M R V) (ctx : MiddlewareContext C M R)
    (decision : MiddlewareDecision M R V) :
    rewritten ctx [⟨first, ctx, .ok decision⟩] = applyTransform ctx decision.transform := by
  unfold rewritten transformsOf HookCall.transform?
  cases h : decision.transform with
  | none => simp [h, applyTransform]
  | some transform => simp [h]

theorem transform_eq_none_of_sleep {decision : MiddlewareDecision M R V}
    (h : decision.action = .sleep) : decision.transform = none := by
  by_contra hne
  rw [decision.transform_continue hne] at h
  cases h

theorem runHooks_spec (time : PipelineClock W) (hook : MiddlewareHook)
    (middleware : List (AgentMiddleware W C M R V))
    (aggregate : MiddlewareDecision M R V) (ctx : MiddlewareContext C M R)
    (run : PipelineRun W C M R V) :
    ∃ calls, (runHooks time hook middleware aggregate ctx run).2.calls = run.calls ++ calls ∧
      (∀ call ∈ calls, call.Replied hook) ∧
      Ran middleware aggregate ctx calls (runHooks time hook middleware aggregate ctx run).1 := by
  induction middleware generalizing aggregate ctx run with
  | nil => exact ⟨[], (List.append_nil _).symm, fun _ h => absurd h List.not_mem_nil, Ran.nil⟩
  | cons first rest ih =>
    obtain ⟨hcalls, world, hreply⟩ := invokeHook_spec time hook first ctx run
    unfold runHooks
    rcases hinvoke : invokeHook time hook first ctx run with ⟨e | decision, run₁⟩
    all_goals
      rw [hinvoke] at hcalls hreply
      change run₁.calls = run.calls at hcalls
    · refine ⟨[⟨first, ctx, .error e⟩], congrArg (· ++ _) hcalls, ?_, Ran.stop ?_⟩
      · exact List.forall_mem_singleton.mpr ⟨world, .inl hreply⟩
      · rintro ⟨decision, hdecision, -⟩
        cases hdecision
    · have hreplied : (⟨first, ctx, .ok decision⟩ : HookCall W C M R V).Replied hook :=
        ⟨world, .inl hreply⟩
      have hgo : decision.action = .continue ∨ decision.action = .sleep →
          (⟨first, ctx, .ok decision⟩ : HookCall W C M R V).Passes := fun h => ⟨decision, rfl, h⟩
      have hstop : decision.action ≠ .continue ∧ decision.action ≠ .sleep →
          ¬(⟨first, ctx, .ok decision⟩ : HookCall W C M R V).Passes := by
        rintro ⟨hcontinue, hsleep⟩ ⟨_, ⟨⟩, h | h⟩
        · exact hcontinue h
        · exact hsleep h
      -- what the rest of the loop does after this call, where it goes on
      have hrest : ∀ (aggregate' : MiddlewareDecision M R V) (run' : PipelineRun W C M R V),
          run'.calls = run₁.calls →
          aggregate' = mergeCall aggregate ⟨first, ctx, .ok decision⟩ →
          (decision.action = .continue ∨ decision.action = .sleep) →
          let next := runHooks time hook rest aggregate' (applyTransform ctx decision.transform)
            (run'.called first ctx (.ok decision))
          ∃ calls, next.2.calls = run.calls ++ calls ∧ (∀ call ∈ calls, call.Replied hook) ∧
            Ran (first :: rest) aggregate ctx calls next.1 := by
        intro aggregate' run' hrun' hmerge hpass
        obtain ⟨calls, hnext, hall, hran⟩ := ih aggregate' (applyTransform ctx decision.transform)
          (run'.called first ctx (.ok decision))
        refine ⟨⟨first, ctx, .ok decision⟩ :: calls, ?_, List.forall_mem_cons.mpr ⟨hreplied, hall⟩, ?_⟩
        · rw [hnext]
          simp [PipelineRun.called, hrun', hcalls]
        · refine Ran.cons (hgo hpass) ?_
          rw [rewritten_continue, ← hmerge]
          exact hran
      have hend : ∀ run' : PipelineRun W C M R V, run'.calls = run₁.calls →
          decision.action ≠ .continue ∧ decision.action ≠ .sleep →
          ∃ calls, (run'.called first ctx (.ok decision)).calls = run.calls ++ calls ∧
            (∀ call ∈ calls, call.Replied hook) ∧
            Ran (first :: rest) aggregate ctx calls (.ok decision) := by
        intro run' hrun' hne
        refine ⟨[⟨first, ctx, .ok decision⟩], ?_, List.forall_mem_singleton.mpr hreplied,
          Ran.stop (hstop hne)⟩
        simp [PipelineRun.called, hrun', hcalls]
      simp only
      cases haction : decision.action with
      | «continue» => exact hrest _ run₁ rfl (by simp [mergeCall, haction]) (.inl haction)
      | abortRun => exact hend _ rfl ⟨by rw [haction]; exact nofun, by rw [haction]; exact nofun⟩
      | denyTool => exact hend _ rfl ⟨by rw [haction]; exact nofun, by rw [haction]; exact nofun⟩
      | retry => exact hend _ rfl ⟨by rw [haction]; exact nofun, by rw [haction]; exact nofun⟩
      | sleep =>
        simp only
        rcases hsleep : time.sleeper decision.sleepSeconds (run₁.record first hook decision).world with
          ⟨raised, slept⟩
        cases raised with
        | some e =>
          refine ⟨[⟨first, ctx, .error e⟩], ?_, ?_, Ran.stop ?_⟩
          · simp [PipelineRun.called, PipelineRun.record, hcalls]
          · exact List.forall_mem_singleton.mpr ⟨world, .inr ⟨decision, e, hreply, haction, rfl⟩⟩
          · rintro ⟨_, ⟨⟩, -⟩
        | none =>
          have hnext := hrest aggregate { run₁.record first hook decision with world := slept } rfl
            (by simp [mergeCall, haction]) (.inr haction)
          rw [transform_eq_none_of_sleep haction] at hnext
          exact hnext

/-! ### The merged decision -/

theorem transform_mergeCalls (calls : List (HookCall W C M R V)) (metadata : Metadata V)
    (hpass : ∀ call ∈ calls, call.Passes) :
    let aggregate := calls.foldl mergeCall (.continueWith metadata none)
    aggregate.action = .continue ∧ aggregate.transform = composed (transformsOf calls) := by
  induction calls using List.reverseRecOn with
  | nil => exact ⟨rfl, rfl⟩
  | append_singleton calls call ih =>
    obtain ⟨haction, htransform⟩ := ih fun other hother => hpass other (List.mem_append_left _ hother)
    obtain ⟨decision, hdecision, hgo⟩ := hpass call (List.mem_append_right _ List.mem_cons_self)
    simp only [List.foldl_append, List.foldl_cons, List.foldl_nil, mergeCall, hdecision]
    have hgiven : transformsOf (calls ++ [call]) = transformsOf calls ++ decision.transform.toList := by
      unfold transformsOf
      rw [List.filterMap_append]
      cases htransform : decision.transform <;>
        simp [HookCall.transform?, hdecision, htransform]
    rw [hgiven]
    split
    next hcontinue =>
      refine ⟨rfl, ?_⟩
      show mergeTransforms _ decision.transform = _
      rw [htransform]
      cases decision.transform with
      | none =>
        rw [Option.toList_none, List.append_nil]
        cases composed (transformsOf calls) <;> rfl
      | some transform => exact (composed_concat _ _).symm
    next hcontinue =>
      rw [transform_eq_none_of_sleep (hgo.resolve_left hcontinue)]
      simpa using ⟨haction, htransform⟩

theorem applyTransform_composed (ctx : MiddlewareContext C M R)
    (transforms : List (MiddlewareTransform M R V)) :
    applyTransform ctx (composed transforms) =
      transforms.foldl (fun ctx transform => applyTransform ctx (some transform)) ctx := by
  induction transforms using List.reverseRecOn with
  | nil => rfl
  | append_singleton transforms next ih =>
    rw [composed_concat, applyTransform_merge, ih, List.foldl_append]
    rfl

end VidbyteSdk.Middleware
