import Mathlib.Data.List.Basic
import Mathlib.Logic.Relation

/-!
# Search along open paths

A search that follows edges until a name is already open on the path it came by. It keeps no memory of
other paths, and yet it comes to every name that can be reached: a path that returns to a name can be
cut short there.
-/

namespace VidbyteSdk.Lib

variable {κ : Type*} {edge : κ → κ → Prop} {seen : List κ} {k k' : κ}

def OpenEdge (edge : κ → κ → Prop) (seen : List κ) (k k' : κ) : Prop := edge k k' ∧ k' ∉ seen

def OpenPath (edge : κ → κ → Prop) (seen : List κ) (k k' : κ) : Prop :=
  k ∉ seen ∧ Relation.ReflTransGen (OpenEdge edge seen) k k'

theorem openPath_nil : OpenPath edge [] k k' ↔ Relation.ReflTransGen edge k k' := by
  have hedge : OpenEdge edge [] = edge := by
    funext a b
    simp [OpenEdge]
  simp [OpenPath, hedge]

theorem exists_openPath_of_reflTransGen (h : Relation.ReflTransGen (OpenEdge edge seen) k k') :
    k' = k ∨ ∃ next, edge k next ∧ OpenPath edge (seen ++ [k]) next k' := by
  induction h with
  | refl => exact .inl rfl
  | @tail a b _ hstep ih =>
    by_cases hb : b = k
    · exact .inl hb
    · have hopen : b ∉ seen ++ [k] := by simp [hstep.2, hb]
      rcases ih with rfl | ⟨next, hnext, hpath⟩
      · exact .inr ⟨b, hstep.1, hopen, .refl⟩
      · exact .inr ⟨next, hnext, hpath.1, hpath.2.tail ⟨hstep.1, hopen⟩⟩

theorem OpenPath.cons {next : κ} (hk : k ∉ seen) (hedge : edge k next)
    (h : OpenPath edge (seen ++ [k]) next k') : OpenPath edge seen k k' := by
  obtain ⟨hnext, hpath⟩ := h
  rw [List.mem_append, not_or] at hnext
  have hedges : OpenEdge edge (seen ++ [k]) ≤ OpenEdge edge seen :=
    fun _ _ hab => ⟨hab.1, fun hb => hab.2 (List.mem_append_left _ hb)⟩
  have hrest : Relation.ReflTransGen (OpenEdge edge seen) next k' :=
    Relation.ReflTransGen.mono hedges _ _ hpath
  exact ⟨hk, .head ⟨hedge, hnext.1⟩ hrest⟩

def remaining [DecidableEq κ] (names seen : List κ) : ℕ := names.countP fun k => k ∉ seen

theorem remaining_concat_lt [DecidableEq κ] {names : List κ} (hk : k ∈ names) (hseen : k ∉ seen) :
    remaining names (seen ++ [k]) < remaining names seen := by
  unfold remaining
  induction names with
  | nil => cases hk
  | cons name names ih =>
    rw [List.countP_cons, List.countP_cons]
    have hmono : names.countP (fun k' => k' ∉ seen ++ [k]) ≤ names.countP fun k' => k' ∉ seen := by
      refine List.countP_mono_left fun k' _ h => ?_
      rw [decide_eq_true_eq] at h ⊢
      exact fun hk' => h (List.mem_append_left _ hk')
    by_cases hname : name = k
    · have hopen : name ∈ seen ++ [k] := by simp [hname]
      have hclosed : name ∉ seen := hname ▸ hseen
      rw [decide_eq_false (not_not.mpr hopen), decide_eq_true hclosed, if_neg Bool.false_ne_true,
        if_pos rfl]
      omega
    · have hlt := ih ((List.mem_cons.mp hk).resolve_left fun h => hname h.symm)
      have hiff : name ∈ seen ++ [k] ↔ name ∈ seen := by simp [hname]
      simp only [hiff]
      omega

section Search

variable [DecidableEq κ] {names : List κ} {bad : κ → Prop} {ok : ℕ → List κ → κ → Prop}

/-- A search on a fuel: it is well with an open name and with a name that leads nowhere, and else where
the name is not bad and the search goes well from it on. -/
def Searches (edge : κ → κ → Prop) (names : List κ) (bad : κ → Prop) (ok : ℕ → List κ → κ → Prop) :
    Prop :=
  ∀ fuel seen k, ok fuel seen k ↔
    k ∈ seen ∨ k ∉ names ∨
      ¬ bad k ∧ ∃ fuel', fuel = fuel' + 1 ∧ ∀ k', edge k k' → ok fuel' (seen ++ [k]) k'

theorem searches_iff (hok : Searches edge names bad ok) (hedge : ∀ k k', edge k k' → k ∈ names)
    (hbad : ∀ k, bad k → k ∈ names) {fuel : ℕ} (hfuel : remaining names seen ≤ fuel) :
    ok fuel seen k ↔ ∀ k', OpenPath edge seen k k' → ¬ bad k' := by
  induction fuel generalizing seen k with
  | zero =>
    rw [hok]
    constructor
    · rintro (hk | hk | ⟨-, _, hzero, -⟩) k' hpath
      · exact absurd hk hpath.1
      · intro hk'
        rcases exists_openPath_of_reflTransGen hpath.2 with rfl | ⟨next, hnext, -⟩
        · exact hk (hbad _ hk')
        · exact hk (hedge _ _ hnext)
      · cases hzero
    · intro _
      by_cases hk : k ∈ seen
      · exact .inl hk
      · refine .inr (.inl fun hmem => ?_)
        have hpos := remaining_concat_lt hmem hk
        omega
  | succ fuel ih =>
    rw [hok]
    constructor
    · rintro (hk | hk | ⟨hgood, fuel', hfuel', hnext⟩) k' hpath
      · exact absurd hk hpath.1
      · intro hk'
        rcases exists_openPath_of_reflTransGen hpath.2 with rfl | ⟨next, hnext, -⟩
        · exact hk (hbad _ hk')
        · exact hk (hedge _ _ hnext)
      · obtain rfl : fuel = fuel' := Nat.succ.inj hfuel'
        rcases exists_openPath_of_reflTransGen hpath.2 with rfl | ⟨next, hedge', hrest⟩
        · exact hgood
        · have hlt := remaining_concat_lt (hedge _ _ hedge') hpath.1
          exact (ih (by omega)).mp (hnext next hedge') k' hrest
    · intro hall
      by_cases hk : k ∈ seen
      · exact .inl hk
      by_cases hmem : k ∈ names
      · refine .inr (.inr ⟨hall k ⟨hk, .refl⟩, fuel, rfl, fun next hnext => ?_⟩)
        have hlt := remaining_concat_lt hmem hk
        exact (ih (by omega)).mpr fun k' hpath => hall k' (hpath.cons hk hnext)
      · exact .inr (.inl hmem)

end Search

end VidbyteSdk.Lib
