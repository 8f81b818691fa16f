import VidbyteSdk.Agents.Loop.Runtime

/-!
# What outside code leaves alone

Callbacks change the world only. A view of a run that does not show the world is therefore left alone by
every hook, every stop and every tool attempt; what the rest of the loop changes is stated where it
matters.
-/

namespace VidbyteSdk.Agents.Loop

open VidbyteSdk.Lib Prog

variable {A T W V : Type}

/-- The view does not show the world. -/
class HidesWorld (view : LoopRun A T W → V) : Prop where
  view_eq : ∀ run w, view { run with world := w } = view run

namespace LoopM

variable {α β : Type} {env : Surroundings A T W}

section

variable {I : LoopRun A T W → Prop} {E : LoopFailure → LoopRun A T W → Prop} {run : LoopRun A T W}

@[simp] theorem wp_getState {Q : LoopState A T → LoopRun A T W → Prop} :
    wp I getState Q E run ↔ Q run.state run := by
  simp [getState]

@[simp] theorem wp_modifyState (change : LoopState A T → LoopState A T)
    {Q : Unit → LoopRun A T W → Prop} :
    wp I (modifyState change) Q E run
      ↔ I { run with state := change run.state } ∧ Q () { run with state := change run.state } :=
  wp_modify _

theorem maintains_getState {P : LoopRun A T W → Prop} {R : β → LoopRun A T W → Prop}
    {f : LoopState A T → LoopM A T W β} (h : Maintains P (f run.state) R run) :
    Maintains P (getState >>= f) R run :=
  Maintains.bind (wp_getState.mpr h)

end

section

variable {view : LoopRun A T W → V}

theorem leaves_getState : Leaves view (getState : LoopM A T W (LoopState A T)) :=
  Leaves.get.bind fun _ => Leaves.pure _

theorem leaves_readWorld (f : W → α) : Leaves view (readWorld f : LoopM A T W α) :=
  Leaves.get.bind fun _ => Leaves.pure _

theorem leaves_stoppedResult (output : String) (stopReason : AgentStopReason) :
    Leaves view (stoppedResult output stopReason : LoopM A T W (AgentResult A)) :=
  leaves_getState.bind fun _ => Leaves.pure _

theorem leaves_middlewareAbortResult (decision : MiddlewareDecision) :
    Leaves view (middlewareAbortResult decision : LoopM A T W (AgentResult A)) :=
  leaves_stoppedResult _ _

theorem leaves_optionStop (stop : Option (String × AgentStopReason)) :
    Leaves view (optionStop stop : LoopM A T W (Option (AgentResult A))) := by
  cases stop with
  | none => exact Leaves.pure _
  | some stop => exact (leaves_stoppedResult _ _).map _

theorem leaves_spendCapStop : Leaves view (spendCapStop env) :=
  (leaves_readWorld _).bind fun _ => leaves_optionStop _

theorem leaves_budgetStop : Leaves view (budgetStop env) := by
  unfold budgetStop
  refine leaves_spendCapStop.bind fun stopped => ?_
  cases stopped with
  | some result => exact Leaves.pure _
  | none => exact leaves_getState.bind fun _ => (leaves_readWorld _).bind fun _ => leaves_optionStop _

theorem leaves_buildConversationMessages : Leaves view (buildConversationMessages env) :=
  leaves_getState.bind fun _ => (leaves_readWorld _).bind fun _ => Leaves.pure _

variable [HidesWorld view]

theorem leaves_attempt (f : Callback W α β) (a : α) :
    Leaves view (attempt f a : LoopM A T W (Except Raised β)) := by
  unfold attempt
  refine Leaves.get.bind fun run => ?_
  exact (Leaves.modify fun run' => HidesWorld.view_eq run' _).bind fun _ => Leaves.pure _

theorem leaves_call (f : Callback W α β) (a : α) : Leaves view (call f a : LoopM A T W β) := by
  unfold call
  refine (leaves_attempt f a).bind fun x => ?_
  cases x with
  | ok b => exact Leaves.pure b
  | error raised => exact Leaves.throw _

theorem leaves_hook (h : Hook A) : Leaves view (hook env h) :=
  leaves_getState.bind fun _ => leaves_call _ _

theorem leaves_finishResult (result : AgentResult A) : Leaves view (finishResult env result) :=
  (leaves_hook _).bind fun _ => Leaves.ite (Leaves.pure _) (Leaves.pure _)

theorem leaves_finishWith (output : String) (stopReason : AgentStopReason) :
    Leaves view (finishWith env output stopReason) :=
  (leaves_stoppedResult _ _).bind fun _ => leaves_finishResult _

theorem leaves_executeToolCall (call : ToolCall A) : Leaves view (executeToolCall env call) := by
  unfold executeToolCall
  refine leaves_getState.bind fun s => (leaves_attempt _ _).bind fun reply => ?_
  rcases reply with (typeName | typeName) | (result | message)
  · exact Leaves.pure _
  · exact Leaves.throw _
  · exact Leaves.pure _
  · exact Leaves.pure _

theorem leaves_runToolAttempts (call : ToolCall A) (decision : MiddlewareDecision) (fuel : Nat) :
    Leaves view (runToolAttempts env call decision fuel) := by
  induction fuel with
  | zero => exact Leaves.throw _
  | succ fuel ih =>
    unfold runToolAttempts
    have hattempt : Leaves view (attemptToolCall env call decision) :=
      Leaves.ite (Leaves.pure _) (leaves_executeToolCall call)
    refine hattempt.bind fun outcome => (leaves_hook _).bind fun afterDecision => ?_
    exact Leaves.ite ((leaves_call _ _).bind fun _ => ih) (Leaves.pure _)

theorem leaves_contractVerdict (output : String) : Leaves view (contractVerdict env output) := by
  unfold contractVerdict
  cases env.contract with
  | none => exact Leaves.pure _
  | some contract =>
    refine leaves_getState.bind fun s => (leaves_call _ _).bind fun unmet => ?_
    cases unmet with
    | none => exact Leaves.pure _
    | some feedback => exact Leaves.pure _

theorem leaves_afterIteration : Leaves view (afterIteration env) :=
  (leaves_hook _).bind fun _ => Leaves.ite (Leaves.pure _)
    ((leaves_middlewareAbortResult _).bind fun _ => (leaves_finishResult _).map _)

theorem keeps_invokeWithMiddleware {P : V → Prop} {conversation : List (Entry A T)}
    (hrequest : Keeps (fun r => P (view r)) (request env conversation)) (fuel : Nat) :
    Keeps (fun r => P (view r)) (invokeWithMiddleware env conversation fuel) := by
  induction fuel with
  | zero => exact Keeps.throw _
  | succ fuel ih =>
    unfold invokeWithMiddleware
    refine (leaves_hook _).keeps.bind fun decision =>
      Keeps.ite ?_ (leaves_middlewareAbortResult _).keeps.map
    refine hrequest.bind fun reply => ?_
    rcases reply with (typeName | typeName) | reply
    · refine (leaves_hook _).keeps.bind fun decision => ?_
      cases decision.action with
      | retry =>
        refine leaves_spendCapStop.keeps.bind fun stopped => ?_
        cases stopped with
        | some result => exact Keeps.pure _
        | none => exact (leaves_call _ _).keeps.bind fun _ => ih
      | abortRun =>
        exact leaves_getState.keeps.bind fun s =>
          Keeps.ite (Keeps.throw _) (leaves_middlewareAbortResult _).keeps.map
      | «continue» => exact Keeps.throw _
      | sleep => exact Keeps.throw _
      | denyTool => exact Keeps.throw _
    · exact Keeps.throw _
    · exact Keeps.pure _

end

end LoopM

end VidbyteSdk.Agents.Loop
