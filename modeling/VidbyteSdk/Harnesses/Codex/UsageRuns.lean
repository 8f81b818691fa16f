import VidbyteSdk.Harnesses.Codex.Turns
import VidbyteSdk.Lib.Places
import VidbyteSdk.Lib.Telescopes
import Mathlib.Algebra.Order.BigOperators.Group.List

/-!
# What a Codex host reports of a thread's tokens

A run of a host is any list of events: turns of any kind on any threads, started and ended in any order. A turn
observes the reports that reach it while it has not ended. Where the reports carry totals that grow by each report's
own last counts, a turn's usage is the sum of these counts, and so is a thread's.
-/

namespace VidbyteSdk.Harnesses.Codex

open Lib

def Payload.report : Payload → Option ThreadTokenUsage
  | .tokenUsageUpdated usage => some usage
  | _ => none

theorem CodexLiveTurn.observe_spec {P : Type} (turn : CodexLiveTurn P) (payload : Payload) :
    (turn.observe payload).1.handle = turn.handle ∧ (turn.observe payload).1.snapshot = turn.snapshot ∧
      (turn.observe payload).1.firstUsage = turn.firstUsage.or payload.report ∧
      (turn.observe payload).1.latestUsage = payload.report.or turn.latestUsage := by
  cases payload with
  | tokenUsageUpdated usage => exact ⟨rfl, rfl, rfl, rfl⟩
  | _ => exact ⟨rfl, rfl, Option.or_none.symm, rfl⟩

namespace CodexTurnRegistry

variable {P T C : Type} (tracking : UsageTracking P T C) (responses : CodexLiveTurn P → CodexTurnStatus)
  (registry : CodexTurnRegistry P T)

def live (i : ℕ) : Bool := registry.turns[i]?.any fun turn => turn.snapshot.isNone

def seen (event : Event P) (i : ℕ) : List ThreadTokenUsage :=
  match event with
  | .note j payload _ => if j = i ∧ registry.live i then payload.report.toList else []
  | _ => []

def ended (event : Event P) : List ℕ :=
  match event with
  | .track .. => []
  | .note i _ _ | .finish i _ => if registry.live i && !(step tracking registry responses event).live i then [i] else []

def observed : CodexTurnRegistry P T → List (Event P) → ℕ → List ThreadTokenUsage
  | _, [], _ => []
  | registry, event :: events, i =>
    registry.seen event i ++ observed (step tracking registry responses event) events i

def filed : CodexTurnRegistry P T → List (Event P) → List ℕ
  | _, [] => []
  | registry, event :: events =>
    ended tracking responses registry event ++ filed (step tracking registry responses event) events

def onThread (thread : Text) (i : ℕ) : Bool := registry.turns[i]?.any fun turn => turn.handle.threadId = thread

def row (i : ℕ) : Option CodexTurnUsage := registry.turns[i]?.bind fun turn => turn.snapshot.map (entry turn)

/-! ### What the ledgers say of a run -/

/-- Every turn keeps the first and the last report it observed, and the ledger of a thread has a row for each of its
ended turns. -/
structure Traced (reports : ℕ → List ThreadTokenUsage) (order : List ℕ) : Prop where
  usage : ∀ i turn, registry.turns[i]? = some turn →
    turn.firstUsage = (reports i).head? ∧ turn.latestUsage = (reports i).getLast?
  unreported : ∀ i, registry.turns.length ≤ i → reports i = []
  nodup : order.Nodup
  mem_order : ∀ i, i ∈ order ↔ ∃ turn, registry.turns[i]? = some turn ∧ turn.snapshot.isSome
  tracked : ∀ thread, (registry.trackers thread).isSome = (registry.ledgers thread).isSome
  opened : ∀ thread, (registry.ledgers thread).isSome ↔ ∃ turn ∈ registry.turns, turn.handle.threadId = thread
  ledger : ∀ thread ledger, registry.ledgers thread = some ledger →
    ledger = (order.filter (registry.onThread thread)).filterMap registry.row

variable {tracking responses registry} {reports : ℕ → List ThreadTokenUsage} {order : List ℕ}

theorem traced_empty : (empty : CodexTurnRegistry P T).Traced (fun _ => []) [] where
  usage := fun _ _ hturn => nomatch hturn
  unreported := fun _ _ => rfl
  nodup := List.nodup_nil
  mem_order := fun _ => ⟨fun h => (nomatch h), fun ⟨_, hturn, _⟩ => nomatch hturn⟩
  tracked := fun _ => rfl
  opened := fun _ => ⟨fun h => (nomatch h), fun ⟨_, hturn, _⟩ => nomatch hturn⟩
  ledger := fun _ _ hledger => nomatch hledger

theorem filterMap_row_congr {registry' : CodexTurnRegistry P T} {thread : Text}
    (h : ∀ i ∈ order, registry'.turns[i]? = registry.turns[i]?) :
    (order.filter (registry'.onThread thread)).filterMap registry'.row =
      (order.filter (registry.onThread thread)).filterMap registry.row := by
  have hfilter : order.filter (registry'.onThread thread) = order.filter (registry.onThread thread) := by
    refine List.filter_congr fun i hi => ?_
    rw [onThread, onThread, h i hi]
  rw [hfilter]
  refine List.filterMap_congr fun i hi => ?_
  rw [row, row, h i (List.mem_of_mem_filter hi)]

variable {turn : CodexLiveTurn P}

theorem traced_add (tracking : UsageTracking P T C) (htraced : registry.Traced reports order) (hfirst : turn.firstUsage = none)
    (hlatest : turn.latestUsage = none) (hlive : turn.snapshot = none) :
    (add tracking registry turn).Traced reports order := by
  have hget (i : ℕ) (other : CodexLiveTurn P) : (add tracking registry turn).turns[i]? = some other ↔
      registry.turns[i]? = some other ∨ i = registry.turns.length ∧ turn = other := by
    change (registry.turns ++ [turn])[i]? = some other ↔ _
    rw [getElem?_concat]
    split
    · next hi =>
      rw [hi, List.getElem?_eq_none (Nat.le_refl _), Option.some.injEq]
      exact ⟨fun h => Or.inr ⟨rfl, h⟩, fun h => h.elim (fun hnone => nomatch hnone) And.right⟩
    · next hi => exact ⟨Or.inl, fun h => h.resolve_right fun heq => hi heq.1⟩
  refine ⟨?_, ?_, htraced.nodup, ?_, ?_, ?_, ?_⟩
  · intro i other hother
    rcases (hget i other).mp hother with hother | ⟨rfl, rfl⟩
    · exact htraced.usage i other hother
    · rw [hfirst, hlatest, htraced.unreported _ (Nat.le_refl _)]
      exact ⟨rfl, rfl⟩
  · intro i hi
    refine htraced.unreported i (Nat.le_trans ?_ hi)
    exact (List.length_append : (registry.turns ++ [turn]).length = _).symm ▸ Nat.le_add_right _ _
  · intro i
    rw [htraced.mem_order]
    constructor
    · rintro ⟨other, hother, hended⟩
      exact ⟨other, (hget i other).mpr (Or.inl hother), hended⟩
    · rintro ⟨other, hother, hended⟩
      rcases (hget i other).mp hother with hother | ⟨-, rfl⟩
      · exact ⟨other, hother, hended⟩
      · rw [hlive] at hended
        cases hended
  · intro thread
    change (Function.update registry.trackers turn.handle.threadId _ thread).isSome =
      (Function.update registry.ledgers turn.handle.threadId _ thread).isSome
    by_cases hthread : thread = turn.handle.threadId
    · rw [hthread, Function.update_self, Function.update_self]
      cases registry.trackers turn.handle.threadId <;> cases registry.ledgers turn.handle.threadId <;> rfl
    · rw [Function.update_of_ne hthread, Function.update_of_ne hthread, htraced.tracked]
  · intro thread
    change (Function.update registry.ledgers turn.handle.threadId _ thread).isSome ↔
      ∃ other ∈ registry.turns ++ [turn], _
    by_cases hthread : thread = turn.handle.threadId
    · rw [hthread, Function.update_self]
      refine ⟨fun _ => ⟨turn, List.mem_append_right _ List.mem_cons_self, rfl⟩, fun _ => ?_⟩
      cases registry.ledgers turn.handle.threadId <;> rfl
    · rw [Function.update_of_ne hthread, htraced.opened]
      constructor
      · rintro ⟨other, hother, hon⟩
        exact ⟨other, List.mem_append_left _ hother, hon⟩
      · rintro ⟨other, hother, hon⟩
        rcases List.mem_append.mp hother with hother | hother
        · exact ⟨other, hother, hon⟩
        · rw [List.mem_singleton.mp hother] at hon
          exact absurd hon.symm hthread
  · intro thread ledger hledger
    have hsame : ∀ i ∈ order, (add tracking registry turn).turns[i]? = registry.turns[i]? := by
      intro i hi
      obtain ⟨other, hother, -⟩ := (htraced.mem_order i).mp hi
      rw [hother]
      exact (hget i other).mpr (Or.inl hother)
    rw [filterMap_row_congr hsame]
    change Function.update registry.ledgers turn.handle.threadId _ thread = _ at hledger
    by_cases hthread : thread = turn.handle.threadId
    · rw [hthread, Function.update_self] at hledger
      cases hold : registry.ledgers turn.handle.threadId with
      | some rows =>
        rw [hold] at hledger
        exact Option.some.inj hledger ▸ hthread ▸ htraced.ledger _ rows hold
      | none =>
        rw [hold] at hledger
        -- No turn of the thread has been tracked before.
        have hnone : order.filter (registry.onThread thread) = [] := by
          rw [List.filter_eq_nil_iff]
          intro i hi hon
          obtain ⟨other, hother, hthread'⟩ := (Option.any_eq_true _ _).mp hon
          have hopened := (htraced.opened thread).mpr
            ⟨other, List.mem_of_getElem? hother, of_decide_eq_true hthread'⟩
          rw [hthread, hold] at hopened
          cases hopened
        rw [hnone]
        exact (Option.some.inj hledger).symm
    · rw [Function.update_of_ne hthread] at hledger
      exact htraced.ledger thread ledger hledger

variable {i : ℕ}

theorem exists_set_turn {turn turn' : CodexLiveTurn P} (hturn : registry.turns[i]? = some turn)
    (hhandle : turn'.handle = turn.handle) (thread : Text) :
    (∃ other ∈ registry.turns.set i turn', other.handle.threadId = thread) ↔
      ∃ other ∈ registry.turns, other.handle.threadId = thread := by
  constructor
  · rintro ⟨other, hother, hthread⟩
    rcases List.mem_or_eq_of_mem_set hother with hother | rfl
    · exact ⟨other, hother, hthread⟩
    · exact ⟨turn, List.mem_of_getElem? hturn, hhandle ▸ hthread⟩
  · rintro ⟨other, hother, hthread⟩
    obtain ⟨j, hj⟩ := List.getElem?_of_mem hother
    by_cases hji : i = j
    · have hsame : other = turn := Option.some.inj (hj.symm.trans (hji ▸ hturn))
      refine ⟨turn', List.mem_of_getElem? (i := i) ?_, hhandle ▸ hsame ▸ hthread⟩
      rw [getElem?_set_place hturn, if_pos rfl]
    · refine ⟨other, List.mem_of_getElem? (i := j) ?_, hthread⟩
      rw [getElem?_set_place hturn, if_neg hji, hj]

theorem notMem_order (htraced : registry.Traced reports order)
    (hturn : registry.turns[i]? = some turn) (hlive : turn.snapshot = none) : i ∉ order := by
  intro hi
  obtain ⟨other, hother, hended⟩ := (htraced.mem_order i).mp hi
  rw [hturn] at hother
  rw [← Option.some.inj hother, hlive] at hended
  cases hended

theorem traced_replace (htraced : registry.Traced reports order) {turn turn' : CodexLiveTurn P}
    {reports' : ℕ → List ThreadTokenUsage} (hturn : registry.turns[i]? = some turn) (hlive : turn.snapshot = none)
    (hlive' : turn'.snapshot = none) (hhandle : turn'.handle = turn.handle)
    (hfirst : turn'.firstUsage = (reports' i).head?) (hlatest : turn'.latestUsage = (reports' i).getLast?)
    (hothers : ∀ j, i ≠ j → reports' j = reports j) :
    ({ registry with turns := registry.turns.set i turn' } : CodexTurnRegistry P T).Traced reports' order := by
  have hnotMem := notMem_order htraced hturn hlive
  refine ⟨?_, ?_, htraced.nodup, ?_, htraced.tracked, ?_, ?_⟩
  · intro j other hother
    rw [getElem?_set_place hturn] at hother
    split at hother
    · next hij =>
      cases hother
      exact hij ▸ ⟨hfirst, hlatest⟩
    · next hij =>
      rw [hothers j hij]
      exact htraced.usage j other hother
  · intro j hj
    rw [List.length_set] at hj
    rw [hothers j, htraced.unreported j hj]
    rintro rfl
    rw [List.getElem?_eq_none hj] at hturn
    cases hturn
  · intro j
    rw [htraced.mem_order]
    refine exists_congr fun other => and_congr_left fun hended => ?_
    rw [getElem?_set_place hturn]
    split
    · next hij =>
      rw [← hij, hturn, Option.some.injEq, Option.some.injEq]
      constructor
      · rintro rfl
        rw [hlive] at hended
        cases hended
      · rintro rfl
        rw [hlive'] at hended
        cases hended
    · rfl
  · exact fun thread => (htraced.opened thread).trans (exists_set_turn hturn hhandle thread).symm
  · intro thread ledger hledger
    rw [htraced.ledger thread ledger hledger]
    refine (filterMap_row_congr fun j hj => ?_).symm
    rw [getElem?_set_place hturn, if_neg]
    rintro rfl
    exact hnotMem hj

theorem isSome_update_map {A : Type} (table : Text → Option A) (key : Text) (f : A → A) (thread : Text) :
    (Function.update table key ((table key).map f) thread).isSome = (table thread).isSome := by
  by_cases hthread : thread = key
  · rw [hthread, Function.update_self, Option.isSome_map]
  · rw [Function.update_of_ne hthread]

theorem traced_finish (tracking : UsageTracking P T C) (htraced : registry.Traced reports order)
    (hturn : registry.turns[i]? = some turn) (hlive : turn.snapshot = none)
    (status : CodexTurnStatus) :
    (finish tracking registry i status).Traced reports (order ++ [i]) ∧
      (finish tracking registry i status).live i = false := by
  let ended : CodexLiveTurn P := { turn with snapshot := some status }
  have hfinish : finish tracking registry i status =
      record tracking { registry with turns := registry.turns.set i ended } i ended status := by
    rw [finish, hturn]
    dsimp only
    rw [hlive, Option.isSome_none, if_neg Bool.false_ne_true]
  have hturns : (finish tracking registry i status).turns = registry.turns.set i ended := congrArg turns hfinish
  have hledgers : (finish tracking registry i status).ledgers = Function.update registry.ledgers turn.handle.threadId
      ((registry.ledgers turn.handle.threadId).map (· ++ [entry ended status])) := congrArg ledgers hfinish
  have hget (j : ℕ) : (finish tracking registry i status).turns[j]? =
      if i = j then some ended else registry.turns[j]? := by
    rw [hturns, getElem?_set_place hturn]
  have hnotMem := notMem_order htraced hturn hlive
  refine ⟨⟨?_, ?_, ?_, ?_, ?_, ?_, ?_⟩, ?_⟩
  · intro j other hother
    rw [hget] at hother
    split at hother
    · next hij =>
      cases hother
      exact hij ▸ htraced.usage i turn hturn
    · exact htraced.usage j other hother
  · intro j hj
    rw [hturns, List.length_set] at hj
    exact htraced.unreported j hj
  · exact List.nodup_append.mpr ⟨htraced.nodup, List.nodup_singleton i, fun j hj k hk => by
      rw [List.mem_singleton.mp hk]
      rintro rfl
      exact hnotMem hj⟩
  · intro j
    rw [List.mem_append, List.mem_singleton, htraced.mem_order, hget]
    split
    · next hij => exact ⟨fun _ => ⟨ended, rfl, rfl⟩, fun _ => Or.inr hij.symm⟩
    · next hij => exact or_iff_left (Ne.symm hij)
  · intro thread
    rw [hledgers, hfinish, record, isSome_update_map, ← htraced.tracked]
    dsimp only
    cases ended.usageDelta with
    | none => rfl
    | some delta => exact isSome_update_map _ _ _ _
  · intro thread
    rw [hturns, exists_set_turn hturn (show ended.handle = turn.handle from rfl), ← htraced.opened, hledgers,
      isSome_update_map]
  · intro thread ledger hledger
    have hsame : ∀ j ∈ order, (finish tracking registry i status).turns[j]? = registry.turns[j]? := by
      intro j hj
      rw [hget, if_neg]
      rintro rfl
      exact hnotMem hj
    rw [List.filter_append, List.filterMap_append, filterMap_row_congr hsame]
    have hon : (finish tracking registry i status).onThread thread i = decide (turn.handle.threadId = thread) := by
      rw [onThread, hget, if_pos rfl]
      rfl
    rw [hledgers] at hledger
    by_cases hthread : thread = turn.handle.threadId
    · rw [hthread, Function.update_self] at hledger
      obtain ⟨rows, hrows, rfl⟩ := Option.map_eq_some_iff.mp hledger
      have hrow : (finish tracking registry i status).row i = some (entry ended status) := by
        rw [row, hget, if_pos rfl]
        rfl
      rw [List.filter_singleton, hon, decide_eq_true hthread.symm, hthread, htraced.ledger _ rows hrows]
      rw [cond_true, List.filterMap_cons_some hrow, List.filterMap_nil]
    · rw [Function.update_of_ne hthread] at hledger
      rw [List.filter_singleton, hon, decide_eq_false (Ne.symm hthread), htraced.ledger thread ledger hledger]
      exact (List.append_nil _).symm
  · rw [live, hget, if_pos rfl]
    rfl

theorem onTurnEvent_cases (tracking : UsageTracking P T C) (responses : CodexLiveTurn P → CodexTurnStatus) (hturn : registry.turns[i]? = some turn)
    (hlive : turn.snapshot = none) (payload : Payload) (stopped : Bool) :
    ∃ turn' : CodexLiveTurn P, turn'.handle = turn.handle ∧ turn'.snapshot = none ∧
      turn'.firstUsage = turn.firstUsage.or payload.report ∧ turn'.latestUsage = payload.report.or turn.latestUsage ∧
      let replaced : CodexTurnRegistry P T := { registry with turns := registry.turns.set i turn' }
      onTurnEvent tracking registry responses i payload stopped = replaced ∨
        onTurnEvent tracking registry responses i payload stopped = finish tracking replaced i (responses turn') := by
  obtain ⟨hhandle, hsnapshot, hfirst, hlatest⟩ := turn.observe_spec payload
  let watched := (turn.observe payload).1
  let turn' := if watched.overCap && !stopped then { watched with stopSent := true } else watched
  refine ⟨turn', ?_, ?_, ?_, ?_, ?_⟩
  · exact (apply_ite CodexLiveTurn.handle _ _ _).trans (ite_self _ |>.trans hhandle)
  · exact (apply_ite CodexLiveTurn.snapshot _ _ _).trans (ite_self _ |>.trans (hsnapshot.trans hlive))
  · exact (apply_ite CodexLiveTurn.firstUsage _ _ _).trans (ite_self _ |>.trans hfirst)
  · exact (apply_ite CodexLiveTurn.latestUsage _ _ _).trans (ite_self _ |>.trans hlatest)
  · dsimp only
    rw [onTurnEvent, hturn]
    dsimp only
    rw [hlive, Option.isSome_none, if_neg Bool.false_ne_true]
    split
    · exact Or.inl rfl
    · exact Or.inl rfl
    · exact Or.inr rfl

theorem live_eq_true :
    registry.live i = true ↔ ∃ turn, registry.turns[i]? = some turn ∧ turn.snapshot = none := by
  rw [live, Option.any_eq_true]
  exact exists_congr fun turn => and_congr_right fun _ => Option.isNone_iff_eq_none

theorem finish_of_not_live (h : registry.live i = false) (status : CodexTurnStatus) :
    finish tracking registry i status = registry := by
  unfold finish
  cases hturn : registry.turns[i]? with
  | none => rfl
  | some turn =>
    rw [live, hturn, Option.any_some, Option.isNone_eq_false_iff] at h
    exact if_pos h

theorem onTurnEvent_of_not_live (h : registry.live i = false) (payload : Payload) (stopped : Bool) :
    onTurnEvent tracking registry responses i payload stopped = registry := by
  unfold onTurnEvent
  cases hturn : registry.turns[i]? with
  | none => rfl
  | some turn =>
    rw [live, hturn, Option.any_some, Option.isNone_eq_false_iff] at h
    exact if_pos h

theorem traced_step (tracking : UsageTracking P T C) (responses : CodexLiveTurn P → CodexTurnStatus)
    (htraced : registry.Traced reports order) (event : Event P) :
    (step tracking registry responses event).Traced (fun i => reports i ++ registry.seen event i)
      (order ++ ended tracking responses registry event) := by
  cases event with
  | track handle cap pricing kind =>
    simp only [seen, ended, List.append_nil]
    exact traced_add tracking htraced rfl rfl rfl
  | note i payload stopped =>
    cases hlive : registry.live i with
    | false =>
      have hseen (j : ℕ) : registry.seen (.note i payload stopped) j = [] := by
        rw [seen, if_neg]
        rintro ⟨rfl, h⟩
        exact Bool.false_ne_true (hlive.symm.trans h)
      simp only [hseen, ended, hlive, Bool.false_and, if_neg Bool.false_ne_true, List.append_nil, step,
        onTurnEvent_of_not_live hlive]
      exact htraced
    | true =>
      obtain ⟨turn, hturn, hsnapshot⟩ := live_eq_true.mp hlive
      obtain ⟨hfirst, hlatest⟩ := htraced.usage i turn hturn
      obtain ⟨turn', hhandle', hsnapshot', hfirst', hlatest', hresult⟩ :=
        onTurnEvent_cases tracking responses hturn hsnapshot payload stopped
      have hself : registry.seen (.note i payload stopped) i = payload.report.toList := if_pos ⟨rfl, hlive⟩
      let replaced : CodexTurnRegistry P T := { registry with turns := registry.turns.set i turn' }
      have hreplaced : replaced.Traced (fun j => reports j ++ registry.seen (.note i payload stopped) j) order := by
        refine traced_replace htraced hturn hsnapshot hsnapshot' hhandle' ?_ ?_ fun j hij => ?_
        · rw [hfirst', hfirst, hself, List.head?_append]
          cases payload.report <;> rfl
        · rw [hlatest', hlatest, hself, List.getLast?_append]
          cases payload.report <;> rfl
        · have hother : registry.seen (.note i payload stopped) j = [] := by
            rw [seen, if_neg]
            exact fun h => hij h.1
          rw [hother, List.append_nil]
      have hturn' : replaced.turns[i]? = some turn' := by
        change (registry.turns.set i turn')[i]? = some turn'
        rw [getElem?_set_place hturn, if_pos rfl]
      rcases hresult with hresult | hresult
      · have hstill : (step tracking registry responses (.note i payload stopped)).live i = true := by
          rw [step, hresult, live_eq_true]
          exact ⟨turn', hturn', hsnapshot'⟩
        rw [ended, hstill, Bool.not_true, Bool.and_false, if_neg Bool.false_ne_true, List.append_nil, step, hresult]
        exact hreplaced
      · obtain ⟨hfinished, hover⟩ := traced_finish tracking hreplaced hturn' hsnapshot' (responses turn')
        rw [← hresult] at hfinished hover
        have hover' : (step tracking registry responses (.note i payload stopped)).live i = false := hover
        rw [ended, hover', hlive, Bool.not_false, Bool.and_true, if_pos rfl]
        exact hfinished
  | finish i status =>
    simp only [seen, List.append_nil]
    cases hlive : registry.live i with
    | false =>
      rw [ended, hlive, Bool.false_and, if_neg Bool.false_ne_true, List.append_nil, step, finish_of_not_live hlive]
      exact htraced
    | true =>
      obtain ⟨turn, hturn, hsnapshot⟩ := live_eq_true.mp hlive
      obtain ⟨hfinished, hover⟩ := traced_finish tracking htraced hturn hsnapshot status
      have hover' : (step tracking registry responses (.finish i status)).live i = false := hover
      rw [ended, hover', hlive, Bool.not_false, Bool.and_true, if_pos rfl]
      exact hfinished

theorem traced_run (tracking : UsageTracking P T C) (responses : CodexLiveTurn P → CodexTurnStatus)
    (htraced : registry.Traced reports order) (events : List (Event P)) :
    (events.foldl (fun registry event => step tracking registry responses event) registry).Traced
      (fun i => reports i ++ observed tracking responses registry events i)
      (order ++ filed tracking responses registry events) := by
  induction events generalizing registry reports order with
  | nil =>
    simp only [observed, filed, List.append_nil]
    exact htraced
  | cons event events ih =>
    have hrest := ih (traced_step tracking responses htraced event)
    simp only [List.append_assoc] at hrest
    exact hrest

/-! ### Growing totals -/

def Grows (reports : List ThreadTokenUsage) : Prop :=
  ∀ name, Accumulates (fun usage => usage.total.count name) (fun usage => usage.last.count name) reports ∧
    ∀ usage ∈ reports, 0 ≤ usage.last.count name

def lastSum (reports : List ThreadTokenUsage) (name : UsageCounter) : ℤ :=
  (reports.map fun usage => usage.last.count name).sum

def totalGrowth (reports : List ThreadTokenUsage) (name : UsageCounter) : ℤ :=
  growth (fun usage => usage.total.count name) (fun usage => usage.last.count name) reports

theorem Grows.of_part {history part : List ThreadTokenUsage} (h : Grows history) (hpart : part <:+: history) :
    Grows part :=
  fun name => ⟨(h name).1.of_part hpart, fun usage husage => (h name).2 usage (hpart.subset husage)⟩

theorem Grows.lastSum_nonneg {history : List ThreadTokenUsage} (h : Grows history) (name : UsageCounter) :
    0 ≤ lastSum history name := by
  refine List.sum_nonneg fun n hn => ?_
  obtain ⟨usage, husage, rfl⟩ := List.mem_map.mp hn
  exact (h name).2 usage husage

theorem isSome_usageDelta {observed : List ThreadTokenUsage}
    (hfirst : turn.firstUsage = observed.head?) (hlatest : turn.latestUsage = observed.getLast?) :
    turn.usageDelta.isSome = true ↔ observed ≠ [] := by
  rw [CodexLiveTurn.usageDelta, hfirst, hlatest]
  cases observed with
  | nil => exact ⟨fun h => (nomatch h), fun h => absurd rfl h⟩
  | cons first rest =>
    rw [List.head?_cons, List.getLast?_eq_some_getLast (List.cons_ne_nil _ _)]
    exact ⟨fun _ => List.cons_ne_nil _ _, fun _ => rfl⟩

theorem get_usageDelta {observed : List ThreadTokenUsage}
    (hfirst : turn.firstUsage = observed.head?) (hlatest : turn.latestUsage = observed.getLast?)
    (hgrows : Grows observed) (name : UsageCounter) :
    (turn.usageDelta.getD .zero).get name = lastSum observed name := by
  have hsum : lastSum observed name = totalGrowth observed name := sum_map_increment (hgrows name).1
  have hnonneg := hgrows.lastSum_nonneg name
  rw [hsum] at hnonneg ⊢
  rw [CodexLiveTurn.usageDelta, hfirst, hlatest]
  cases observed with
  | nil => exact CodexUsage.get_zero name
  | cons first rest =>
    rw [totalGrowth, growth, List.head?_cons, List.getLast?_eq_some_getLast (List.cons_ne_nil first rest)] at hnonneg ⊢
    dsimp only at hnonneg ⊢
    rw [Option.getD_some, CodexUsage.get_ofCounter, Counter.count_minus, Counter.count_subtract]
    omega

variable {rows : List CodexTurnUsage}

theorem forall₂_row {thread : Text} (htraced : registry.Traced reports order)
    (hrows : registry.ledgers thread = some rows) :
    List.Forall₂ (fun i entry => registry.row i = some entry) (order.filter (registry.onThread thread)) rows := by
  rw [htraced.ledger thread rows hrows]
  have hsome : ∀ i ∈ order.filter (registry.onThread thread), ∃ entry, registry.row i = some entry := by
    intro i hi
    obtain ⟨turn, hturn, hended⟩ := (htraced.mem_order i).mp (List.mem_of_mem_filter hi)
    obtain ⟨status, hstatus⟩ := Option.isSome_iff_exists.mp hended
    exact ⟨entry turn status, by rw [row, hturn, Option.bind_some, hstatus, Option.map_some]⟩
  generalize order.filter (registry.onThread thread) = turns at hsome ⊢
  induction turns with
  | nil => exact List.Forall₂.nil
  | cons i rest ih =>
    obtain ⟨entry, hentry⟩ := hsome i List.mem_cons_self
    rw [List.filterMap_cons_some hentry]
    exact List.Forall₂.cons hentry (ih fun j hj => hsome j (List.mem_cons_of_mem _ hj))

theorem row_spec (htraced : registry.Traced reports order) {entry : CodexTurnUsage}
    (hrow : registry.row i = some entry) :
    (entry.usageAvailable = true ↔ reports i ≠ []) ∧
      (Grows (reports i) → ∀ name, entry.usage.get name = lastSum (reports i) name) := by
  obtain ⟨turn, hturn, hentry⟩ := Option.bind_eq_some_iff.mp hrow
  obtain ⟨status, -, rfl⟩ := Option.map_eq_some_iff.mp hentry
  obtain ⟨hfirst, hlatest⟩ := htraced.usage i turn hturn
  exact ⟨isSome_usageDelta hfirst hlatest, get_usageDelta hfirst hlatest⟩

variable {turns : List ℕ}

theorem sum_rows (h : List.Forall₂ (fun i entry => (entry.usageAvailable = true ↔ reports i ≠ []) ∧
      (Grows (reports i) → ∀ name, entry.usage.get name = lastSum (reports i) name)) turns rows)
    (hgrows : ∀ i ∈ turns, Grows (reports i)) (name : UsageCounter) :
    (rows.map fun entry => entry.usage.get name).sum = lastSum (turns.flatMap reports) name := by
  induction h with
  | nil => rfl
  | cons hrow _ ih =>
    rw [List.map_cons, List.sum_cons, ih fun j hj => hgrows j (List.mem_cons_of_mem _ hj),
      hrow.2 (hgrows _ List.mem_cons_self) name, List.flatMap_cons, lastSum, lastSum, lastSum, List.map_append,
      List.sum_append]

theorem ne_nil_of_available (h : List.Forall₂ (fun i entry => (entry.usageAvailable = true ↔ reports i ≠ []) ∧
      (Grows (reports i) → ∀ name, entry.usage.get name = lastSum (reports i) name)) turns rows)
    (hall : (rows.all (·.usageAvailable)) = true) : ∀ i ∈ turns, reports i ≠ [] := by
  induction h with
  | nil => exact fun i hi => nomatch hi
  | cons hrow _ ih =>
    rw [List.all_cons, Bool.and_eq_true] at hall
    intro i hi
    rcases List.mem_cons.mp hi with rfl | hi
    · exact hrow.1.mp hall.1
    · exact ih hall.2 i hi

theorem infix_flatMap (h : i ∈ turns) : reports i <:+: turns.flatMap reports := by
  obtain ⟨before, after, rfl⟩ := List.append_of_mem h
  rw [List.flatMap_append, List.flatMap_cons, ← List.append_assoc]
  exact ⟨before.flatMap reports, after.flatMap reports, rfl⟩

/-- **Usage telescopes**: in any run, a turn's usage is the sum of the last counts it observed, the ledger of a thread
has a row for each ended turn, and the thread's total is what its totals have grown by in all the reports that fell into
the turns; a turn without a report is unavailable, and then the cost is not complete. -/
theorem usage_telescopes (tracking : UsageTracking P T C) (responses : CodexLiveTurn P → CodexTurnStatus)
    (events : List (Event P)) (thread : Text) :
    let registry := run tracking responses events
    let reports := observed tracking responses empty events
    let turns := (filed tracking responses empty events).filter (registry.onThread thread)
    (∀ i turn, registry.turns[i]? = some turn → (turn.usageDelta.isSome = true ↔ reports i ≠ []) ∧
      (Grows (reports i) → ∀ name, (turn.usageDelta.getD .zero).get name = lastSum (reports i) name)) ∧
    turns.Nodup ∧
    (∀ i, i ∈ turns ↔ ∃ turn, registry.turns[i]? = some turn ∧ turn.handle.threadId = thread ∧ turn.snapshot.isSome) ∧
    ((usage tracking registry thread).isSome ↔ ∃ turn ∈ registry.turns, turn.handle.threadId = thread) ∧
    ∀ threadUsage, usage tracking registry thread = some threadUsage →
      List.Forall₂ (fun i entry => (entry.usageAvailable = true ↔ reports i ≠ []) ∧
        (Grows (reports i) → ∀ name, entry.usage.get name = lastSum (reports i) name)) turns threadUsage.turns ∧
      (∀ history, turns.flatMap reports = history → Grows history →
        (∀ i ∈ turns, Grows (reports i)) ∧ ∀ name, threadUsage.total.get name = totalGrowth history name) ∧
      ((∃ i ∈ turns, reports i = []) → threadUsage.costComplete = false) := by
  have htraced : (run tracking responses events).Traced (observed tracking responses empty events)
      (filed tracking responses empty events) := traced_run tracking responses traced_empty events
  refine ⟨fun i turn hturn => ?_, htraced.nodup.filter _, fun i => ?_, ?_, fun threadUsage husage => ?_⟩
  · obtain ⟨hfirst, hlatest⟩ := htraced.usage i turn hturn
    exact ⟨isSome_usageDelta hfirst hlatest, get_usageDelta hfirst hlatest⟩
  · rw [List.mem_filter, htraced.mem_order, onThread, Option.any_eq_true]
    constructor
    · rintro ⟨⟨turn, hturn, hended⟩, ⟨other, hother, hthread⟩⟩
      rw [hturn] at hother
      exact ⟨turn, hturn, Option.some.inj hother ▸ of_decide_eq_true hthread, hended⟩
    · rintro ⟨turn, hturn, hthread, hended⟩
      exact ⟨⟨turn, hturn, hended⟩, turn, hturn, decide_eq_true hthread⟩
  · rw [← htraced.opened, usage]
    have htracked := htraced.tracked thread
    cases hledger : (run tracking responses events).ledgers thread with
    | none => exact Iff.rfl
    | some rows =>
      rw [hledger] at htracked
      obtain ⟨tracker, htracker⟩ := Option.isSome_iff_exists.mp htracked
      rw [htracker]
      exact Iff.rfl
  · rw [usage] at husage
    cases hledger : (run tracking responses events).ledgers thread with
    | none =>
      rw [hledger] at husage
      cases husage
    | some rows =>
      cases htracker : (run tracking responses events).trackers thread with
      | none =>
        rw [hledger, htracker] at husage
        cases husage
      | some tracker =>
        rw [hledger, htracker] at husage
        obtain rfl := (Option.some.inj husage).symm
        have hrows := forall₂_row htraced hledger
        have hspec := hrows.imp fun i entry hrow => row_spec htraced hrow
        refine ⟨hspec, fun history hhistory hgrows => ?_, fun ⟨i, hi, hnone⟩ => ?_⟩
        · have heach : ∀ i ∈ (filed tracking responses empty events).filter
              ((run tracking responses events).onThread thread), Grows (observed tracking responses empty events i) :=
            fun i hi => hgrows.of_part (hhistory ▸ infix_flatMap hi)
          refine ⟨heach, fun name => ?_⟩
          dsimp only
          rw [CodexUsage.get_ofCounter, count_totalOf, sum_rows hspec heach, hhistory]
          exact sum_map_increment (hgrows name).1
        · dsimp only
          rw [Bool.and_eq_false_iff]
          refine Or.inr (Bool.eq_false_of_not_eq_true fun hall => ?_)
          exact ne_nil_of_available hspec hall i hi hnone

end CodexTurnRegistry

end VidbyteSdk.Harnesses.Codex
