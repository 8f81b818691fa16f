import Mathlib.Data.List.Nodup
import Mathlib.Logic.Relation

/-!
# Walks along parent links

Nodes are known by their ids, and `next` gives what is known of an id: nothing, that its node has no parent,
or the id of its parent. A walk follows the links from an id and stops at the first id that is unknown or seen
before, so it ends for every relation, cyclic ones included, and it collects exactly the known ids that the
links lead to.

The second part is about forests that grow: a node is put under an older one, so the nearest node of some kind on
the way to a root is found by going through the nodes from the newest to the oldest.
-/

namespace VidbyteSdk.Lib

variable {ι : Type*}

/-- A link from a known id to the id of its parent. -/
def Links (next : ι → Option (Option ι)) (i j : ι) : Prop := next i = some (some j)

/-- The walk from a cursor, with the ids seen so far and those seen in the end. -/
inductive Walk (next : ι → Option (Option ι)) : Option ι → List ι → List ι → Prop
  | root (seen : List ι) : Walk next none seen seen
  | again {i : ι} {seen : List ι} (h : i ∈ seen) : Walk next (some i) seen seen
  | dangling {i : ι} {seen : List ι} (h : next i = none) : Walk next (some i) seen seen
  | step {i : ι} {seen result : List ι} {parent : Option ι} (hnew : i ∉ seen) (h : next i = some parent)
      (rest : Walk next parent (i :: seen) result) : Walk next (some i) seen result

namespace Walk

variable {next : ι → Option (Option ι)} {cursor : Option ι} {i j : ι} {seen result : List ι}

theorem subset (h : Walk next cursor seen result) : seen ⊆ result := by
  induction h with
  | root => exact List.Subset.refl _
  | again => exact List.Subset.refl _
  | dangling => exact List.Subset.refl _
  | step _ _ _ ih => exact List.Subset.trans (List.subset_cons_self _ _) ih

theorem sound (h : Walk next cursor seen result) (hj : j ∈ result) :
    j ∈ seen ∨ (next j).isSome ∧ ∃ i ∈ cursor, Relation.ReflTransGen (Links next) i j := by
  induction h with
  | root => exact Or.inl hj
  | again => exact Or.inl hj
  | dangling => exact Or.inl hj
  | @step i seen result parent hnew hnext rest ih =>
    rcases ih hj with hseen | ⟨hknown, k, hk, hreach⟩
    · rcases List.mem_cons.mp hseen with rfl | hseen
      · exact Or.inr ⟨by rw [hnext]; rfl, j, rfl, .refl⟩
      · exact Or.inl hseen
    · obtain rfl := Option.mem_def.mp hk
      exact Or.inr ⟨hknown, i, rfl, .head hnext hreach⟩

theorem closed (h : Walk next cursor seen result)
    (hseen : ∀ j ∈ seen, ∀ k, Links next j k → k ∈ seen ∨ cursor = some k)
    (hj : j ∈ result) {k : ι} (hlink : Links next j k) (hk : (next k).isSome) : k ∈ result := by
  induction h with
  | root =>
    exact (hseen j hj k hlink).resolve_right nofun
  | again h =>
    rcases hseen j hj k hlink with hmem | hcur
    · exact hmem
    · obtain rfl := Option.some.inj hcur
      exact h
  | dangling h =>
    refine (hseen j hj k hlink).resolve_right fun hcur => ?_
    obtain rfl := Option.some.inj hcur
    rw [h] at hk
    cases hk
  | @step i seen result parent hnew hnext rest ih =>
    refine ih (fun l hl m hlm => ?_) hj
    rcases List.mem_cons.mp hl with rfl | hl
    · exact Or.inr (Option.some.inj (hnext.symm.trans hlm))
    · rcases hseen l hl m hlm with hmem | hcur
      · exact Or.inl (List.mem_cons_of_mem _ hmem)
      · obtain rfl := Option.some.inj hcur
        exact Or.inl List.mem_cons_self

theorem mem_iff (h : Walk next (some i) [] result) :
    j ∈ result ↔ (next i).isSome ∧ (next j).isSome ∧ Relation.ReflTransGen (Links next) i j := by
  have hclosed : ∀ {j k}, j ∈ result → Links next j k → (next k).isSome → k ∈ result :=
    fun hj hlink hk => h.closed (fun _ hl => absurd hl List.not_mem_nil) hj hlink hk
  have hstart : (next i).isSome → i ∈ result := by
    intro hi
    cases h with
    | again hmem => exact hmem
    | dangling hnone => rw [hnone] at hi; cases hi
    | step _ _ rest => exact rest.subset List.mem_cons_self
  constructor
  · intro hj
    obtain ⟨hknown, i', hi', hreach⟩ := (h.sound hj).resolve_left List.not_mem_nil
    obtain rfl := Option.mem_some_iff.mp hi'
    refine ⟨?_, hknown, hreach⟩
    rcases Relation.ReflTransGen.cases_head hreach with rfl | ⟨k, hlink, -⟩
    · exact hknown
    · rw [show next i = some (some k) from hlink]
      rfl
  · rintro ⟨hi, hj, hreach⟩
    induction hreach with
    | refl => exact hstart hi
    | @tail k j _ hlink ih =>
      have hk : (next k).isSome := by
        rw [show next k = some (some j) from hlink]
        rfl
      exact hclosed (ih hk) hlink hj

end Walk

/-! ### Forests by age -/

section

variable {α : Type*} (place : α → ℕ) (parent : α → Option ℕ) (keep : α → Bool)

/-- Nodes from the newest to the oldest, each placed by its age and under an older one. -/
def Aged : List α → Prop
  | [] => True
  | a :: older => place a = older.length ∧ (∀ i ∈ parent a, i < older.length) ∧ Aged older

/-- The first node that is kept, on the way from a place to a root. -/
def nearest : List α → Option ℕ → Option α
  | _, none => none
  | [], some _ => none
  | a :: older, some i =>
    if i = place a then if keep a then some a else nearest older (parent a) else nearest older (some i)

attribute [local grind =] nearest

variable {place parent keep} {nodes : List α} {a b : α} {i : ℕ}

theorem nearest_none (nodes : List α) : nearest place parent keep nodes none = none := by
  cases nodes <;> rfl

theorem Aged.place_lt (h : Aged place parent nodes) (ha : a ∈ nodes) : place a < nodes.length := by
  induction nodes with
  | nil => cases ha
  | cons b older ih =>
    rw [List.length_cons]
    rcases List.mem_cons.mp ha with rfl | ha
    · exact h.1 ▸ Nat.lt_succ_self _
    · exact Nat.lt_succ_of_lt (ih h.2.2 ha)

theorem Aged.pairwise (h : Aged place parent nodes) : nodes.Pairwise fun a b => place b < place a := by
  induction nodes with
  | nil => exact .nil
  | cons b older ih => exact .cons (fun a ha => h.1 ▸ h.2.2.place_lt ha) (ih h.2.2)

theorem Aged.parent_lt (h : Aged place parent nodes) (ha : a ∈ nodes) : ∀ i ∈ parent a, i < place a := by
  induction nodes with
  | nil => cases ha
  | cons b older ih =>
    rcases List.mem_cons.mp ha with rfl | ha
    · exact h.1 ▸ h.2.1
    · exact ih h.2.2 ha

theorem Aged.inj (h : Aged place parent nodes) (ha : a ∈ nodes) (hb : b ∈ nodes) (heq : place a = place b) :
    a = b := by
  induction nodes with
  | nil => cases ha
  | cons c older ih =>
    have hne {d : α} (hd : d ∈ older) : place d ≠ place c := h.1 ▸ Nat.ne_of_lt (h.2.2.place_lt hd)
    rcases List.mem_cons.mp ha with rfl | ha' <;> rcases List.mem_cons.mp hb with rfl | hb'
    · rfl
    · exact absurd heq.symm (hne hb')
    · exact absurd heq (hne ha')
    · exact ih h.2.2 ha' hb'

theorem nearest_cons_of_lt (h : Aged place parent (a :: nodes)) {start : Option ℕ}
    (hstart : ∀ i ∈ start, i < nodes.length) :
    nearest place parent keep (a :: nodes) start = nearest place parent keep nodes start := by
  cases start with
  | none => rw [nearest_none, nearest_none]
  | some i => rw [nearest, if_neg (h.1 ▸ Nat.ne_of_lt (hstart i rfl))]

theorem nearest_place (h : Aged place parent nodes) (ha : a ∈ nodes) :
    nearest place parent keep nodes (some (place a)) =
      if keep a then some a else nearest place parent keep nodes (parent a) := by
  induction nodes with
  | nil => cases ha
  | cons b older ih =>
    rcases List.mem_cons.mp ha with rfl | ha
    · rw [nearest, if_pos rfl, nearest_cons_of_lt h h.2.1]
    · have hlt : place a < older.length := h.2.2.place_lt ha
      rw [nearest_cons_of_lt h fun i hi => Option.mem_some_iff.mp hi ▸ hlt, ih h.2.2 ha,
        nearest_cons_of_lt h fun i hi => Nat.lt_trans (h.2.2.parent_lt ha i hi) hlt]

theorem nearest_mem {start : Option ℕ} (hb : nearest place parent keep nodes start = some b) :
    b ∈ nodes ∧ keep b = true := by
  induction nodes generalizing start with
  | nil => cases start <;> cases hb
  | cons a older ih =>
    cases start with
    | none => cases hb
    | some i =>
      rw [nearest] at hb
      split at hb
      · split at hb
        · next hkeep =>
          cases hb
          exact ⟨List.mem_cons_self, hkeep⟩
        · exact (ih hb).imp_left (List.mem_cons_of_mem a)
      · exact (ih hb).imp_left (List.mem_cons_of_mem a)

theorem nearest_closed {Q : ℕ → Prop} (hQ : ∀ a ∈ nodes, Q (place a) → ∀ i ∈ parent a, Q i) {start : Option ℕ}
    (hstart : ∀ i ∈ start, Q i) (hb : nearest place parent keep nodes start = some b) : Q (place b) := by
  induction nodes generalizing start with
  | nil => cases start <;> cases hb
  | cons a older ih =>
    have holder := @ih (fun c hc => hQ c (List.mem_cons_of_mem a hc))
    cases start with
    | none => cases hb
    | some i =>
      rw [nearest] at hb
      split at hb
      · next hi =>
        have ha : Q (place a) := hi ▸ hstart i rfl
        split at hb
        · cases hb
          exact ha
        · exact holder (hQ a List.mem_cons_self ha) hb
      · exact holder hstart hb

theorem findSome?_newest {β : Type*} {f : α → Option β} {v : β}
    (hsorted : nodes.Pairwise fun a b => place b < place a) (ha : a ∈ nodes) (hv : f a = some v)
    (hnewest : ∀ b ∈ nodes, (f b).isSome → place b ≤ place a) : nodes.findSome? f = some v := by
  induction nodes with
  | nil => cases ha
  | cons b older ih =>
    rcases List.mem_cons.mp ha with rfl | ha
    · rw [List.findSome?_cons, hv]
    · have hnone : f b = none := by
        rw [← Option.not_isSome_iff_eq_none]
        intro hsome
        exact Nat.not_le_of_lt (List.rel_of_pairwise_cons hsorted ha) (hnewest b List.mem_cons_self hsome)
      rw [List.findSome?_cons, hnone]
      exact ih hsorted.of_cons ha fun c hc => hnewest c (List.mem_cons_of_mem b hc)

end

end VidbyteSdk.Lib
