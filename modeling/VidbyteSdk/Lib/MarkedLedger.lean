import Mathlib.Data.Finset.SDiff

/-!
# Bounded ledgers with marks

A ledger of ids that drops its oldest entries beyond a capacity, and a set of marked ids. Dropping an
entry drops its mark, so an id that comes back has to be marked again. What is left of a mark after
`enter` is the content of `mem_marks_enter`: the mark of an id stays as long as its only entry does.
-/

namespace VidbyteSdk.Lib

structure MarkedLedger (κ : Type*) where
  ids : List κ
  marks : Finset κ

namespace MarkedLedger

variable {κ : Type*} [DecidableEq κ] {cap : Nat} {mark : Bool} {k x : κ} {l : MarkedLedger κ}

/-- Appends an id, marked or not, and drops the oldest entries beyond the capacity. -/
def enter (cap : Nat) (mark : Bool) (k : κ) (l : MarkedLedger κ) : MarkedLedger κ where
  ids := (l.ids ++ [k]).drop (l.ids.length + 1 - cap)
  marks := (if mark then insert k l.marks else l.marks) \
    ((l.ids ++ [k]).take (l.ids.length + 1 - cap)).toFinset

theorem length_ids_enter : (l.enter cap mark k).ids.length ≤ cap := by
  unfold enter
  rw [List.length_drop, List.length_append, List.length_singleton]
  omega

theorem mem_ids_of_mem_enter (h : x ∈ (l.enter cap mark k).ids) : x ∈ l.ids ∨ x = k := by
  have hx : x ∈ l.ids ++ [k] := List.mem_of_mem_drop h
  rwa [List.mem_append, List.mem_singleton] at hx

theorem self_mem_ids_enter (hcap : 0 < cap) : k ∈ (l.enter cap mark k).ids := by
  have hle : l.ids.length + 1 - cap ≤ l.ids.length := by omega
  unfold enter
  rw [List.drop_append_of_le_length hle]
  exact List.mem_append_right _ (List.mem_singleton_self k)

theorem count_ids_enter_le :
    (l.enter cap mark k).ids.count x ≤ l.ids.count x + if k = x then 1 else 0 := by
  have hsub : (l.enter cap mark k).ids.Sublist (l.ids ++ [k]) := List.drop_sublist _ _
  have hcount := hsub.count_le x
  rw [List.count_append, List.count_singleton] at hcount
  simpa using hcount

theorem mem_marks_enter (hone : (l.ids ++ [k]).count x ≤ 1) (hx : x ∈ (l.enter cap mark k).ids)
    (hmark : x ∈ l.marks ∨ mark = true ∧ x = k) : x ∈ (l.enter cap mark k).marks := by
  have hkept : 0 < ((l.ids ++ [k]).drop (l.ids.length + 1 - cap)).count x := List.count_pos_iff.mpr hx
  have hsplit := congrArg (List.count x) (List.take_append_drop (l.ids.length + 1 - cap) (l.ids ++ [k]))
  rw [List.count_append] at hsplit
  have hdropped : x ∉ (l.ids ++ [k]).take (l.ids.length + 1 - cap) := by
    intro hmem
    have hpos := List.count_pos_iff.mpr hmem
    omega
  unfold enter
  refine Finset.mem_sdiff.mpr ⟨?_, fun hmem => hdropped (List.mem_toFinset.mp hmem)⟩
  rcases hmark with hmark | ⟨rfl, rfl⟩
  · split
    · exact Finset.mem_insert_of_mem hmark
    · exact hmark
  · exact Finset.mem_insert_self _ _

end MarkedLedger

end VidbyteSdk.Lib
