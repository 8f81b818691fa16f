import Mathlib.Data.List.Basic

/-!
# Joining neighbours

A list is read from the left, and an item that goes with the last one kept is joined to it.
-/

namespace VidbyteSdk.Lib

variable {α β : Type*} (joins : α → α → Bool) (join : α → α → α)

def mergeStep (merged : List α) (item : α) : List α :=
  match merged.getLast? with
  | some last => if joins last item then merged.dropLast ++ [join last item] else merged ++ [item]
  | none => merged ++ [item]

def mergeAdjacent (items : List α) : List α := items.foldl (mergeStep joins join) []

def mergeFrom : α → List α → List α
  | last, [] => [last]
  | last, item :: items =>
    if joins last item then mergeFrom (join last item) items else last :: mergeFrom item items

variable {joins join}

theorem mergeStep_concat (merged : List α) (last item : α) :
    mergeStep joins join (merged ++ [last]) item =
      if joins last item then merged ++ [join last item] else merged ++ [last] ++ [item] := by
  unfold mergeStep
  rw [List.getLast?_concat]
  simp only [List.dropLast_concat]

theorem foldl_mergeStep (merged : List α) (last : α) (items : List α) :
    items.foldl (mergeStep joins join) (merged ++ [last]) = merged ++ mergeFrom joins join last items := by
  induction items generalizing merged last with
  | nil => rfl
  | cons item items ih =>
    rw [List.foldl_cons, mergeStep_concat, mergeFrom]
    split
    · exact ih merged (join last item)
    · rw [ih (merged ++ [last]) item, List.append_assoc, List.singleton_append]

theorem mergeAdjacent_cons (item : α) (items : List α) :
    mergeAdjacent joins join (item :: items) = mergeFrom joins join item items :=
  foldl_mergeStep [] item items

theorem mergeFrom_append_apart {kept items rest : List α} {last : α}
    (hapart : ∀ before, ∀ item ∈ items, joins before item = false)
    (hrest : ∀ item ∈ last :: items, mergeFrom joins join item rest = item :: kept) :
    mergeFrom joins join last (items ++ rest) = last :: (items ++ kept) := by
  induction items generalizing last with
  | nil => exact hrest last List.mem_cons_self
  | cons item items ih =>
    have hitem := hapart last item List.mem_cons_self
    rw [List.cons_append, mergeFrom, hitem, if_neg Bool.false_ne_true]
    rw [ih (fun before later hlater => hapart before later (List.mem_cons_of_mem _ hlater))
      (fun later hlater => hrest later (List.mem_cons_of_mem _ hlater))]
    rfl

theorem mergeFrom_append_together {kind : α → Prop} {items : List α}
    (hjoins : ∀ a b, kind a → kind b → joins a b = true ∧ kind (join a b))
    (hitems : ∀ item ∈ items, kind item) {last : α} (hlast : kind last) (rest : List α) :
    mergeFrom joins join last (items ++ rest) = mergeFrom joins join (items.foldl join last) rest := by
  induction items generalizing last with
  | nil => rfl
  | cons item items ih =>
    obtain ⟨hjoin, hkind⟩ := hjoins last item hlast (hitems item List.mem_cons_self)
    rw [List.cons_append, mergeFrom, if_pos hjoin, List.foldl_cons]
    exact ih (fun later hlater => hitems later (List.mem_cons_of_mem _ hlater)) hkind

end VidbyteSdk.Lib
