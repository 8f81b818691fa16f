import VidbyteSdk.Lib.Grouping
import VidbyteSdk.Lib.Picking

/-!
# The first of each key

A scan that keeps of the items with a key the first one, and every item without a key.
-/

namespace VidbyteSdk.Lib

variable {α κ : Type} [DecidableEq κ] (key : α → Option κ)

/-- The items without a key, and those whose key was not seen yet. -/
def keepFirsts : List κ → List α → List α
  | _, [] => []
  | seen, item :: items =>
    match key item with
    | none => item :: keepFirsts seen items
    | some k => if k ∈ seen then keepFirsts seen items else item :: keepFirsts (k :: seen) items

variable {key} {seen : List κ} {item : α} {k : κ}

theorem keepFirsts_none (h : key item = none) (items : List α) :
    keepFirsts key seen (item :: items) = item :: keepFirsts key seen items := by
  rw [keepFirsts, h]

theorem keepFirsts_seen (h : key item = some k) (hseen : k ∈ seen) (items : List α) :
    keepFirsts key seen (item :: items) = keepFirsts key seen items := by
  simp only [keepFirsts, h, if_pos hseen]

theorem keepFirsts_new (h : key item = some k) (hseen : k ∉ seen) (items : List α) :
    keepFirsts key seen (item :: items) = item :: keepFirsts key (k :: seen) items := by
  simp only [keepFirsts, h, if_neg hseen]

variable (key)

def isFirst (items : List α) (entry : α × ℕ) : Bool :=
  (key entry.1).isNone || decide (key entry.1 ∉ (items.take entry.2).map key)

/-- The scan goes by the keys of all items before, which `seen` lists. -/
theorem keepFirsts_eq_pick_after (earlier : List (Option κ)) (h : ∀ k, k ∈ seen ↔ some k ∈ earlier) (items : List α) :
    keepFirsts key seen items = pick (fun entry =>
      (key entry.1).isNone || decide (key entry.1 ∉ earlier ++ (items.take entry.2).map key)) items := by
  induction items generalizing seen earlier with
  | nil => rfl
  | cons item items ih =>
    have htail : pick (fun entry => (key entry.1).isNone ||
        decide (key entry.1 ∉ earlier ++ ((item :: items).take (entry.2 + 1)).map key)) items =
        pick (fun entry => (key entry.1).isNone ||
          decide (key entry.1 ∉ (earlier ++ [key item]) ++ (items.take entry.2).map key)) items :=
      pick_congr fun other i _ => by rw [List.take_succ_cons, List.map_cons, List.append_cons]
    rw [pick_cons, htail, List.take_zero, List.map_nil, List.append_nil]
    cases hkey : key item with
    | none =>
      rw [keepFirsts_none hkey, ih (earlier ++ [none]) (by simpa using h)]
      rfl
    | some k =>
      by_cases hseen : k ∈ seen
      · rw [keepFirsts_seen hkey hseen, if_neg (by simpa using (h k).mp hseen), List.nil_append]
        refine ih (earlier ++ [some k]) fun k' => ?_
        rw [List.mem_append, List.mem_singleton, Option.some_inj, h k']
        exact ⟨Or.inl, Or.rec id fun hk => hk ▸ (h k).mp hseen⟩
      · rw [keepFirsts_new hkey hseen, if_pos (by simpa using mt (h k).mpr hseen)]
        refine congrArg (item :: ·) (ih (earlier ++ [some k]) fun k' => ?_)
        rw [List.mem_cons, List.mem_append, List.mem_singleton, Option.some_inj, h k', or_comm]

theorem keepFirsts_eq_pick (items : List α) : keepFirsts key [] items = pick (isFirst key items) items :=
  keepFirsts_eq_pick_after key [] (fun _ => by simp) items

theorem keepFirsts_sublist (seen : List κ) (items : List α) : (keepFirsts key seen items).Sublist items := by
  rw [keepFirsts_eq_pick_after key (seen.map some) (fun k => by simp)]
  exact pick_sublist _ _

theorem keepFirsts_keepFirsts {before : List κ} (seen : List κ) (h : before ⊆ seen) (items : List α) :
    keepFirsts key before (keepFirsts key seen items) = keepFirsts key seen items := by
  induction items generalizing before seen with
  | nil => rfl
  | cons item items ih =>
    cases hkey : key item with
    | none => rw [keepFirsts_none hkey, keepFirsts_none hkey, ih seen h]
    | some k =>
      by_cases hseen : k ∈ seen
      · rw [keepFirsts_seen hkey hseen, ih seen h]
      · rw [keepFirsts_new hkey hseen, keepFirsts_new hkey fun hk => hseen (h hk),
          ih (k :: seen) (List.cons_subset_cons k h)]

end VidbyteSdk.Lib
