import Mathlib.Data.List.Basic

/-!
# Objects by their places

Objects that are told apart by identity, as a list in which an object is its place: a new one is put behind the others,
a change of one is a `set`.
-/

namespace VidbyteSdk.Lib

variable {α : Type*} {objects : List α}

theorem getElem?_concat (objects : List α) (new : α) (i : ℕ) :
    (objects ++ [new])[i]? = if i = objects.length then some new else objects[i]? := by
  rcases Nat.lt_trichotomy i objects.length with hlt | heq | hgt
  · rw [List.getElem?_append_left hlt, if_neg (Nat.ne_of_lt hlt)]
  · rw [heq, List.getElem?_concat_length, if_pos rfl]
  · have hlength : (objects ++ [new]).length ≤ i := by
      rw [List.length_append, List.length_singleton]
      exact hgt
    rw [List.getElem?_eq_none hlength, if_neg (Nat.ne_of_gt hgt), List.getElem?_eq_none (Nat.le_of_lt hgt)]

theorem getElem?_set_place {i : ℕ} {old : α} (h : objects[i]? = some old) (new : α) (j : ℕ) :
    (objects.set i new)[j]? = if i = j then some new else objects[j]? := by
  obtain ⟨hlt, -⟩ := List.getElem?_eq_some_iff.mp h
  rw [List.getElem?_set, if_pos hlt]

end VidbyteSdk.Lib
