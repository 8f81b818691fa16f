import Mathlib.Data.List.Chain
import Mathlib.Data.List.TakeWhile

/-!
# Grouping a list by its openers

A list falls into groups: an item that opens a group takes every joining item right after it, and each other item is a
group alone. Groups are found again in their concatenation unless a group that was opened is followed by one that would
join it.
-/

namespace VidbyteSdk.Lib

variable {α : Type} (opens joins : α → Bool)

/-- Each opener with the run of joining items after it, and each other item alone. -/
def groupRuns : List α → List (List α)
  | [] => []
  | item :: rest =>
    if opens item then (item :: rest.takeWhile joins) :: groupRuns (rest.dropWhile joins)
    else [item] :: groupRuns rest
termination_by items => items.length
decreasing_by
  · have := (List.dropWhile_suffix (l := rest) joins).length_le
    simp only [List.length_cons]
    omega
  · simp only [List.length_cons]
    omega

theorem groupRuns_nil : groupRuns opens joins [] = [] := by rw [groupRuns]

theorem groupRuns_opener {item : α} (h : opens item = true) (rest : List α) :
    groupRuns opens joins (item :: rest) =
      (item :: rest.takeWhile joins) :: groupRuns opens joins (rest.dropWhile joins) := by
  rw [groupRuns, if_pos h]

theorem groupRuns_other {item : α} (h : opens item = false) (rest : List α) :
    groupRuns opens joins (item :: rest) = [item] :: groupRuns opens joins rest := by
  rw [groupRuns, if_neg (by simp [h])]

theorem groupRuns_of_none {items : List α} (h : ∀ item ∈ items, opens item = false) :
    groupRuns opens joins items = items.map fun item => [item] := by
  induction items with
  | nil => exact groupRuns_nil opens joins
  | cons item items ih =>
    obtain ⟨hitem, hitems⟩ := List.forall_mem_cons.mp h
    rw [groupRuns_other opens joins hitem, ih hitems, List.map_cons]

theorem flatten_groupRuns (items : List α) : (groupRuns opens joins items).flatten = items := by
  fun_induction groupRuns opens joins items with
  | case1 => rfl
  | case2 item rest h ih => rw [List.flatten_cons, ih, List.cons_append, List.takeWhile_append_dropWhile]
  | case3 item rest h ih => rw [List.flatten_cons, ih, List.singleton_append]

inductive IsGroup : List α → Prop
  | opened {item : α} {members : List α} (hopens : opens item = true)
    (hjoins : ∀ member ∈ members, joins member = true) : IsGroup (item :: members)
  | single {item : α} (hopens : opens item = false) : IsGroup [item]

def heads (kind : α → Bool) (group : List α) : Bool := group.head?.any kind

theorem isGroup_of_mem_groupRuns {items group : List α} (h : group ∈ groupRuns opens joins items) :
    IsGroup opens joins group := by
  fun_induction groupRuns opens joins items with
  | case1 => cases h
  | case2 item rest hopens ih =>
    rcases List.mem_cons.mp h with rfl | h
    · exact .opened hopens fun _ hmember => List.mem_takeWhile_imp hmember
    · exact ih h
  | case3 item rest hopens ih =>
    rcases List.mem_cons.mp h with rfl | h
    · exact .single (by simpa using hopens)
    · exact ih h

variable {opens joins}

variable {group : List α}

theorem IsGroup.ne_nil (h : IsGroup opens joins group) : group ≠ [] := by
  cases h <;> exact List.cons_ne_nil _ _

theorem IsGroup.all_joins (h : IsGroup opens joins group) (hjoins : heads joins group = true) :
    ∀ member ∈ group, joins member = true := by
  cases h with
  | opened _ hmembers => exact List.forall_mem_cons.mpr ⟨hjoins, hmembers⟩
  | single _ => exact List.forall_mem_singleton.mpr hjoins

theorem dropWhile_flatten {groups : List (List α)} (h : ∀ group ∈ groups, IsGroup opens joins group) :
    groups.flatten.dropWhile joins = (groups.dropWhile (heads joins)).flatten := by
  induction groups with
  | nil => rfl
  | cons group groups ih =>
    have hgroup := h group List.mem_cons_self
    rw [List.flatten_cons]
    cases hheads : heads joins group with
    | true =>
      rw [List.dropWhile_cons_of_pos hheads,
        List.dropWhile_append_of_pos (hgroup.all_joins hheads), ih fun g hg => h g (List.mem_cons_of_mem _ hg)]
    | false =>
      obtain ⟨item, members, rfl⟩ := List.exists_cons_of_ne_nil hgroup.ne_nil
      have hitem : ¬ joins item = true := by simpa [heads] using hheads
      rw [List.dropWhile_cons_of_neg (by simp [hheads]), List.cons_append, List.dropWhile_cons_of_neg hitem]
      rfl

theorem groupRuns_flatten_cons {groups : List (List α)} (hgroup : IsGroup opens joins group)
    (h : ∀ group ∈ groups, IsGroup opens joins group) :
    ∃ more rest, rest <:+ groups ∧
      groupRuns opens joins (group :: groups).flatten = (group ++ more) :: groupRuns opens joins rest.flatten := by
  cases hgroup with
  | opened hopens hjoins =>
    refine ⟨groups.flatten.takeWhile joins, groups.dropWhile (heads joins), List.dropWhile_suffix _, ?_⟩
    rw [List.flatten_cons, List.cons_append, groupRuns_opener opens joins hopens,
      List.takeWhile_append_of_pos hjoins, List.dropWhile_append_of_pos hjoins, dropWhile_flatten h]
    rfl
  | single hopens =>
    exact ⟨[], groups, List.suffix_rfl, by rw [List.flatten_cons, List.singleton_append,
      groupRuns_other opens joins hopens, List.append_nil]⟩

theorem forall_mem_groupRuns {P : List α → Prop} (hgrow : ∀ group more, P group → P (group ++ more))
    {groups : List (List α)} (h : ∀ group ∈ groups, IsGroup opens joins group) (hP : ∀ group ∈ groups, P group) :
    ∀ group ∈ groupRuns opens joins groups.flatten, P group := by
  match groups with
  | [] => exact fun group hgroup => by rw [List.flatten_nil, groupRuns_nil] at hgroup; cases hgroup
  | group :: groups =>
    obtain ⟨hgroup, hgroups⟩ := List.forall_mem_cons.mp h
    obtain ⟨hfirst, hothers⟩ := List.forall_mem_cons.mp hP
    obtain ⟨more, rest, hrest, heq⟩ := groupRuns_flatten_cons hgroup hgroups
    have hlength := hrest.length_le
    rw [heq]
    exact List.forall_mem_cons.mpr ⟨hgrow group more hfirst, forall_mem_groupRuns hgrow
      (fun g hg => hgroups g (hrest.subset hg)) fun g hg => hothers g (hrest.subset hg)⟩
termination_by groups.length

variable (opens joins)

def Apart (groups : List (List α)) : Prop :=
  groups.IsChain fun group next => heads opens group = true → heads joins next = false

theorem groupRuns_flatten {groups : List (List α)} (h : ∀ group ∈ groups, IsGroup opens joins group)
    (hapart : Apart opens joins groups) : groupRuns opens joins groups.flatten = groups := by
  induction groups with
  | nil => exact groupRuns_nil opens joins
  | cons group groups ih =>
    obtain ⟨hgroup, hgroups⟩ := List.forall_mem_cons.mp h
    have htail := ih hgroups hapart.of_cons
    rw [List.flatten_cons]
    cases hgroup with
    | opened hopens hjoins =>
      have hnext : groups.flatten.dropWhile joins = groups.flatten := by
        rw [dropWhile_flatten hgroups]
        cases groups with
        | nil => rfl
        | cons next groups =>
          rw [List.dropWhile_cons_of_neg]
          simp [(List.isChain_cons_cons.mp hapart).1 hopens]
      have hnone : groups.flatten.takeWhile joins = [] := by
        have := List.takeWhile_append_dropWhile (p := joins) (l := groups.flatten)
        rw [hnext] at this
        simpa using this
      rw [List.cons_append, groupRuns_opener opens joins hopens, List.takeWhile_append_of_pos hjoins,
        List.dropWhile_append_of_pos hjoins, hnext, hnone, List.append_nil, htail]
    | single hopens => rw [List.singleton_append, groupRuns_other opens joins hopens, htail]

theorem apart_of_forall {groups : List (List α)} (h : ∀ group ∈ groups, heads joins group = false) :
    Apart opens joins groups := by
  induction groups with
  | nil => exact List.isChain_nil
  | cons group groups ih =>
    refine List.isChain_cons.mpr ⟨fun next hnext _ => ?_, ih fun g hg => h g (List.mem_cons_of_mem _ hg)⟩
    exact h next (List.mem_cons_of_mem _ (List.mem_of_mem_head? hnext))

theorem heads_head?_groupRuns (kind : α → Bool) {items : List α}
    (h : group ∈ (groupRuns opens joins items).head?) : heads kind group = items.head?.any kind := by
  cases items with
  | nil => rw [groupRuns_nil] at h; cases h
  | cons item rest =>
    cases hopens : opens item with
    | true =>
      rw [groupRuns_opener opens joins hopens] at h
      obtain rfl := Option.some.inj h
      rfl
    | false =>
      rw [groupRuns_other opens joins hopens] at h
      obtain rfl := Option.some.inj h
      rfl

theorem apart_groupRuns (items : List α) : Apart opens joins (groupRuns opens joins items) := by
  fun_induction groupRuns opens joins items with
  | case1 => exact List.isChain_nil
  | case2 item rest h ih =>
    refine List.isChain_cons.mpr ⟨fun next hnext _ => ?_, ih⟩
    rw [heads_head?_groupRuns opens joins joins hnext]
    have hstopped := List.head?_dropWhile_not joins rest
    cases hrest : (rest.dropWhile joins).head? with
    | none => rfl
    | some first =>
      rw [hrest] at hstopped
      exact hstopped
  | case3 item rest h ih =>
    refine List.isChain_cons.mpr ⟨fun next _ hopens => ?_, ih⟩
    exact absurd hopens h

end VidbyteSdk.Lib
