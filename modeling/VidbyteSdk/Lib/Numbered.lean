import Mathlib.Data.List.Range

/-!
# Numbered lists

A log whose entries carry their own position, counted from `1`. A log that is only ever extended by
an entry numbered one past its end, or by a renumbered copy of another log, stays numbered.
-/

namespace VidbyteSdk.Lib

variable {α : Type*}

/-- The entries of `log` carry the numbers `1, 2, …, n` in this order. -/
def Numbered (index : α → Nat) (log : List α) : Prop :=
  log.map index = List.range' 1 log.length

instance (index : α → Nat) (log : List α) : Decidable (Numbered index log) :=
  inferInstanceAs (Decidable (_ = _))

namespace Numbered

variable {index : α → Nat} {log : List α}

theorem nil : Numbered index [] := rfl

theorem append {more : List α} (h : Numbered index log)
    (hm : more.map index = List.range' (log.length + 1) more.length) :
    Numbered index (log ++ more) := by
  unfold Numbered at h ⊢
  rw [List.map_append, h, hm, List.length_append, ← List.range'_append_1, Nat.add_comm 1]

theorem concat {a : α} (h : Numbered index log) (ha : index a = log.length + 1) :
    Numbered index (log ++ [a]) :=
  h.append (by simp [ha])

end Numbered

/-- The copy of `log` numbered from `first` on: `set n a` is the entry `a` under the number `n`. -/
def renumber (set : Nat → α → α) (first : Nat) (log : List α) : List α :=
  (log.zipIdx 1).map fun (a, offset) => set (first + offset - 1) a

variable {set : Nat → α → α} {first : Nat} {log : List α}

@[simp] theorem length_renumber : (renumber set first log).length = log.length := by
  simp [renumber]

@[simp] theorem renumber_nil : renumber set first ([] : List α) = [] := rfl

theorem renumber_eq_mapIdx :
    renumber set first log = log.mapIdx fun i a => set (first + i) a := by
  refine List.ext_getElem (by simp) fun i h₁ h₂ => ?_
  simp only [renumber, List.getElem_map, List.getElem_zipIdx, List.getElem_mapIdx]
  congr 1
  omega

theorem renumber_concat (a : α) :
    renumber set first (log ++ [a]) = renumber set first log ++ [set (first + log.length) a] := by
  simp only [renumber_eq_mapIdx, List.mapIdx_concat]

theorem map_index_renumber {index : α → Nat} (hset : ∀ n a, index (set n a) = n) :
    (renumber set first log).map index = List.range' first log.length := by
  rw [renumber_eq_mapIdx]
  refine List.ext_getElem (by simp) fun i h₁ h₂ => ?_
  simp [hset]

theorem map_renumber {β : Type*} {f : α → β} (hf : ∀ n a, f (set n a) = f a) :
    (renumber set first log).map f = log.map f := by
  rw [renumber_eq_mapIdx]
  refine List.ext_getElem (by simp) fun i h₁ h₂ => ?_
  simp [hf]

theorem renumber_renumber (hset : ∀ n m a, set n (set m a) = set n a) (m : Nat) :
    renumber set first (renumber set m log) = renumber set first log := by
  simp only [renumber_eq_mapIdx, List.mapIdx_mapIdx]
  refine List.ext_getElem (by simp) fun i h₁ h₂ => ?_
  simp [hset]

theorem all_renumber {p : α → Bool} (hp : ∀ n a, p (set n a) = p a) :
    (renumber set first log).all p = log.all p := by
  have h : (renumber set first log).map p = log.map p := map_renumber hp
  calc (renumber set first log).all p
      = ((renumber set first log).map p).all id := by rw [List.all_map]; rfl
    _ = log.all p := by rw [h, List.all_map]; rfl

end VidbyteSdk.Lib
