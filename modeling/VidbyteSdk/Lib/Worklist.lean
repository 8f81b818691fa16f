import Mathlib.Data.List.Basic
import Mathlib.Logic.Relation

/-!
# Worklist reachability

The nodes of a finite graph that a worklist reaches: it takes the first pending node and, unless it was
seen before, keeps it and appends its unseen successors. `mem_reachableFrom` says that these are the nodes
of the reflexive transitive closure; cycles and repeated edges make no difference.
-/

namespace VidbyteSdk.Lib

variable {α : Type*} [DecidableEq α]

def successors (edges : List (α × α)) (node : α) : List α :=
  (edges.filter fun edge => edge.1 = node).map Prod.snd

variable {edges : List (α × α)}

theorem mem_successors {node next : α} :
    next ∈ successors edges node ↔ (node, next) ∈ edges := by
  simp [successors]

def visitPending (edges : List (α × α)) : (fuel : Nat) → (seen pending : List α) → List α
  | 0, seen, _ => seen
  | _ + 1, seen, [] => seen
  | fuel + 1, seen, node :: pending =>
    if node ∈ seen then visitPending edges fuel seen pending
    else visitPending edges fuel (node :: seen)
      (pending ++ (successors edges node).filter fun next => next ∉ node :: seen)

/-- The nodes reached from `start`; a pass of the traversal drops a pending node or uses up its edges. -/
def reachableFrom (edges : List (α × α)) (start : α) : List α :=
  visitPending edges (edges.length + 1) [] [start]

/-! ### The passes left -/

def unusedEdges (edges : List (α × α)) (seen : List α) : Nat :=
  edges.countP fun edge => edge.1 ∉ seen

theorem unusedEdges_cons {seen : List α} {node : α} (h : node ∉ seen) :
    unusedEdges edges (node :: seen) + (successors edges node).length = unusedEdges edges seen := by
  unfold unusedEdges successors
  rw [List.length_map, ← List.countP_eq_length_filter]
  induction edges with
  | nil => rfl
  | cons edge edges ih =>
    by_cases hsource : edge.1 = node
    · rw [List.countP_cons_of_neg (by simp [hsource]), List.countP_cons_of_pos (by simp [hsource]),
        List.countP_cons_of_pos (by simp [hsource, h])]
      omega
    · rw [List.countP_cons_of_neg (l := edges) (a := edge)
        (p := fun edge => decide (edge.1 = node)) (by simp [hsource])]
      by_cases hseen : edge.1 ∈ seen
      · rw [List.countP_cons_of_neg (by simp [hseen]), List.countP_cons_of_neg (by simp [hseen])]
        exact ih
      · rw [List.countP_cons_of_pos (by simp [hsource, hseen]),
          List.countP_cons_of_pos (by simp [hseen])]
        omega

/-! ### What is reached -/

def Explored (edges : List (α × α)) (seen pending : List α) : Prop :=
  ∀ node ∈ seen, ∀ next, (node, next) ∈ edges → next ∈ seen ∨ next ∈ pending

omit [DecidableEq α] in
theorem Explored.skip {seen pending : List α} {node : α}
    (h : Explored edges seen (node :: pending)) (hseen : node ∈ seen) : Explored edges seen pending := by
  intro source hsource next hedge
  rcases h source hsource next hedge with hnext | hnext
  · exact Or.inl hnext
  · rcases List.mem_cons.mp hnext with rfl | hnext
    · exact Or.inl hseen
    · exact Or.inr hnext

theorem Explored.keep {seen pending : List α} {node : α}
    (h : Explored edges seen (node :: pending)) :
    Explored edges (node :: seen)
      (pending ++ (successors edges node).filter fun next => next ∉ node :: seen) := by
  intro source hsource next hedge
  by_cases hnext : next ∈ node :: seen
  · exact Or.inl hnext
  · refine Or.inr (List.mem_append.mpr ?_)
    rcases List.mem_cons.mp hsource with rfl | hsource
    · exact Or.inr (List.mem_filter.mpr ⟨mem_successors.mpr hedge, decide_eq_true hnext⟩)
    · rcases h source hsource next hedge with hold | hpending
      · exact absurd (List.mem_cons_of_mem node hold) hnext
      · rcases List.mem_cons.mp hpending with rfl | hpending
        · exact absurd List.mem_cons_self hnext
        · exact Or.inl hpending

theorem forall_visitPending {P : α → Prop}
    (hedges : ∀ node next, (node, next) ∈ edges → P node → P next) :
    ∀ (fuel : Nat) (seen pending : List α), (∀ node ∈ seen, P node) → (∀ node ∈ pending, P node) →
      ∀ node ∈ visitPending edges fuel seen pending, P node := by
  intro fuel
  induction fuel with
  | zero => intro seen pending hseen _; exact hseen
  | succ fuel ih =>
    intro seen pending hseen hpending
    cases pending with
    | nil => exact hseen
    | cons node pending =>
      have hrest : ∀ next ∈ pending, P next := fun next h => hpending next (List.mem_cons_of_mem _ h)
      unfold visitPending
      split
      · exact ih seen pending hseen hrest
      · apply ih
        · exact List.forall_mem_cons.mpr ⟨hpending node List.mem_cons_self, hseen⟩
        · intro next hnext
          rcases List.mem_append.mp hnext with hnext | hnext
          · exact hrest next hnext
          · have hedge := mem_successors.mp (List.mem_filter.mp hnext).1
            exact hedges node next hedge (hpending node List.mem_cons_self)

theorem closed_visitPending :
    ∀ (fuel : Nat) (seen pending : List α), pending.length + unusedEdges edges seen ≤ fuel →
      Explored edges seen pending →
      (∀ node, node ∈ seen ∨ node ∈ pending → node ∈ visitPending edges fuel seen pending) ∧
        Explored edges (visitPending edges fuel seen pending) [] := by
  intro fuel
  induction fuel with
  | zero =>
    intro seen pending hfuel h
    obtain rfl : pending = [] := List.length_eq_zero_iff.mp (by omega)
    exact ⟨fun node hnode => hnode.resolve_right List.not_mem_nil, h⟩
  | succ fuel ih =>
    intro seen pending hfuel h
    cases pending with
    | nil => exact ⟨fun node hnode => hnode.resolve_right List.not_mem_nil, h⟩
    | cons node pending =>
      rw [List.length_cons] at hfuel
      unfold visitPending
      split
      next hseen =>
        obtain ⟨hkept, hclosed⟩ := ih seen pending (by omega) (h.skip hseen)
        refine ⟨fun other hother => hkept other ?_, hclosed⟩
        rcases hother with hother | hother
        · exact Or.inl hother
        · rcases List.mem_cons.mp hother with rfl | hother
          · exact Or.inl hseen
          · exact Or.inr hother
      next hseen =>
        have hunused : unusedEdges edges (node :: seen) + (successors edges node).length =
            unusedEdges edges seen := unusedEdges_cons hseen
        have hfilter := List.length_filter_le (fun next => decide (next ∉ node :: seen))
          (successors edges node)
        have hlength : (pending ++ (successors edges node).filter
            fun next => decide (next ∉ node :: seen)).length +
              unusedEdges edges (node :: seen) ≤ fuel := by
          rw [List.length_append]
          omega
        obtain ⟨hkept, hclosed⟩ := ih _ _ hlength h.keep
        refine ⟨fun other hother => hkept other ?_, hclosed⟩
        rcases hother with hother | hother
        · exact Or.inl (List.mem_cons_of_mem node hother)
        · rcases List.mem_cons.mp hother with rfl | hother
          · exact Or.inl List.mem_cons_self
          · exact Or.inr (List.mem_append_left _ hother)

theorem mem_reachableFrom {start node : α} :
    node ∈ reachableFrom edges start ↔
      Relation.ReflTransGen (fun a b => (a, b) ∈ edges) start node := by
  unfold reachableFrom
  constructor
  · refine forall_visitPending (fun a b hedge ha => ha.tail hedge) _ _ _ ?_ ?_ node
    · exact fun a ha => absurd ha List.not_mem_nil
    · intro a ha
      rw [List.mem_singleton.mp ha]
  · intro hreach
    have hfuel : [start].length + unusedEdges edges [] ≤ edges.length + 1 := by
      have hcount : unusedEdges edges [] ≤ edges.length := List.countP_le_length
      rw [List.length_singleton]
      omega
    obtain ⟨hkept, hclosed⟩ := closed_visitPending (edges.length + 1) [] [start] hfuel
      fun a ha => absurd ha List.not_mem_nil
    induction hreach with
    | refl => exact hkept start (Or.inr List.mem_cons_self)
    | tail _ hedge ih => exact (hclosed _ ih _ hedge).resolve_right List.not_mem_nil

end VidbyteSdk.Lib
