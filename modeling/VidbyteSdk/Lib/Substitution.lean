import Mathlib.Data.List.Infix

/-!
# Substitution by a pattern

A pattern says how far it matches at a place of a list, whose left neighbour it may look at. A scan goes from left to right
and takes each match out; a substitution rewrites what the scan took out.
-/

namespace VidbyteSdk.Lib

variable {α : Type}

/-- How many items a pattern matches at a place, behind `prev`. -/
structure Pattern (α : Type) where
  matchAt : Option α → List α → Option ℕ
  matchAt_bounds : ∀ {prev : Option α} {items : List α} {n : ℕ}, matchAt prev items = some n → 0 < n ∧ n ≤ items.length

namespace Pattern

variable (p : Pattern α)

/-- The items between the matches, and the matches; `skip` items of a match are still ahead. -/
def scanFrom : Option α → ℕ → List α → List (α ⊕ List α)
  | _, _, [] => []
  | _, skip + 1, item :: items => scanFrom (some item) skip items
  | prev, 0, item :: items =>
    match p.matchAt prev (item :: items) with
    | some n => .inr ((item :: items).take n) :: scanFrom (some item) (n - 1) items
    | none => .inl item :: scanFrom (some item) 0 items

def scan (prev : Option α) (items : List α) : List (α ⊕ List α) := p.scanFrom prev 0 items

/-- `re.finditer`. -/
def findAll (items : List α) : List (List α) := (p.scan none items).filterMap Sum.getRight?

def rewriteMatches (rewrite : List α → List α) : List (α ⊕ List α) → List α :=
  List.flatMap (Sum.elim (fun item => [item]) rewrite)

/-- `re.sub`. -/
def sub (rewrite : List α → List α) (items : List α) : List α := rewriteMatches rewrite (p.scan none items)

/-- A pattern that matches one list alone, as `str.replace` looks for it. -/
def literal [DecidableEq α] (word : List α) (h : word ≠ []) : Pattern α where
  matchAt _ items := if word <+: items then some word.length else none
  matchAt_bounds := by
    intro _ items n hmatch
    obtain ⟨hword, hlength⟩ := Option.ite_none_right_eq_some.mp hmatch
    obtain rfl := Option.some.inj hlength
    exact ⟨List.length_pos_iff.mpr h, hword.length_le⟩

variable {p} {rewrite : List α → List α} {prev : Option α} {item : α} {found items : List α}

/-! ### The scan -/

theorem scanFrom_append (prev : Option α) (skipped items : List α) :
    p.scanFrom prev skipped.length (skipped ++ items) = p.scan (skipped.getLast?.or prev) items := by
  induction skipped generalizing prev with
  | nil => rfl
  | cons item skipped ih =>
    rw [List.cons_append, List.length_cons, scanFrom, ih, List.getLast?_cons]
    cases skipped.getLast? <;> rfl

theorem ne_nil_of_matchAt (h : p.matchAt prev (found ++ items) = some found.length) : found ≠ [] := by
  rintro rfl
  exact absurd (p.matchAt_bounds h).1 (Nat.lt_irrefl 0)

theorem matchAt_nil (p : Pattern α) (prev : Option α) : p.matchAt prev [] = none := by
  cases h : p.matchAt prev [] with
  | none => rfl
  | some n =>
    obtain ⟨hpos, hle⟩ := p.matchAt_bounds h
    exact absurd (Nat.lt_of_lt_of_le hpos hle) (Nat.lt_irrefl 0)

theorem scan_nil (p : Pattern α) (prev : Option α) : p.scan prev [] = [] := rfl

theorem scan_none (h : p.matchAt prev (item :: items) = none) :
    p.scan prev (item :: items) = .inl item :: p.scan (some item) items := by
  rw [scan, scanFrom, h]
  rfl

theorem scan_some (h : p.matchAt prev (found ++ items) = some found.length) :
    p.scan prev (found ++ items) = .inr found :: p.scan found.getLast? items := by
  obtain ⟨first, rest, rfl⟩ := List.exists_cons_of_ne_nil (ne_nil_of_matchAt h)
  rw [List.cons_append] at h
  rw [List.cons_append, scan, scanFrom, h]
  dsimp only
  rw [← List.cons_append, List.take_left' rfl, List.length_cons, Nat.add_sub_cancel, scanFrom_append, List.getLast?_cons]
  cases rest.getLast? <;> rfl

theorem scan_induction (p : Pattern α) {P : Option α → List α → Prop} (nil : ∀ prev, P prev [])
    (skip : ∀ prev item items, p.matchAt prev (item :: items) = none → P (some item) items → P prev (item :: items))
    (found : ∀ prev found items, p.matchAt prev (found ++ items) = some found.length → P found.getLast? items →
      P prev (found ++ items)) (prev : Option α) (items : List α) : P prev items := by
  match items with
  | [] => exact nil prev
  | item :: rest =>
    cases h : p.matchAt prev (item :: rest) with
    | none => exact skip prev item rest h (scan_induction p nil skip found (some item) rest)
    | some n =>
      obtain ⟨hpos, hle⟩ := p.matchAt_bounds h
      have hlength : ((item :: rest).take n).length = n := List.length_take_of_le hle
      have hsplit := List.take_append_drop n (item :: rest)
      rw [← hsplit] at h ⊢
      exact found prev _ _ (by rw [h, hlength]) (scan_induction p nil skip found _ ((item :: rest).drop n))
termination_by items.length
decreasing_by
  · simp only [List.length_cons]
    omega
  · simp only [List.length_drop, List.length_cons] at hle ⊢
    omega

theorem exists_matchAt_of_mem_scan (h : Sum.inr found ∈ p.scan prev items) :
    ∃ before rest, p.matchAt before (found ++ rest) = some found.length := by
  induction prev, items using p.scan_induction with
  | nil prev => cases h
  | skip prev item items hnone ih =>
    rw [scan_none hnone] at h
    exact ih ((List.mem_cons.mp h).resolve_left (by simp))
  | found prev first items hsome ih =>
    rw [scan_some hsome] at h
    rcases List.mem_cons.mp h with hfound | hlater
    · rw [Sum.inr.inj hfound]
      exact ⟨prev, items, hsome⟩
    · exact ih hlater

theorem mem_findAll : found ∈ p.findAll items ↔ Sum.inr found ∈ p.scan none items := by
  rw [findAll, List.mem_filterMap]
  exact ⟨fun ⟨_, hpiece, hfound⟩ => Sum.getRight?_eq_some_iff.mp hfound ▸ hpiece, fun h => ⟨_, h, rfl⟩⟩

theorem exists_matchAt_of_mem (h : found ∈ p.findAll items) :
    ∃ before rest, p.matchAt before (found ++ rest) = some found.length :=
  exists_matchAt_of_mem_scan (mem_findAll.mp h)

theorem infix_of_mem_scan {piece : α ⊕ List α} (h : piece ∈ p.scan prev items) :
    Sum.elim (fun item => [item]) id piece <:+: items := by
  induction prev, items using p.scan_induction with
  | nil prev => cases h
  | skip prev item items hnone ih =>
    rw [scan_none hnone] at h
    rcases List.mem_cons.mp h with rfl | hlater
    · exact (List.prefix_append [item] items).isInfix
    · exact (ih hlater).trans (List.suffix_cons item items).isInfix
  | found prev found items hsome ih =>
    rw [scan_some hsome] at h
    rcases List.mem_cons.mp h with rfl | hlater
    · exact (List.prefix_append found items).isInfix
    · exact (ih hlater).trans (List.suffix_append found items).isInfix

theorem infix_of_mem_findAll (h : found ∈ p.findAll items) : found <:+: items := infix_of_mem_scan (mem_findAll.mp h)

/-! ### What a substitution leaves alone -/

theorem rewriteMatches_eq_self
    (h : ∀ found ∈ (p.scan prev items).filterMap Sum.getRight?, rewrite found = found) :
    rewriteMatches rewrite (p.scan prev items) = items := by
  induction prev, items using p.scan_induction with
  | nil prev => rfl
  | skip prev item items hnone ih =>
    rw [scan_none hnone] at h ⊢
    exact congrArg (item :: ·) (ih h)
  | found prev found items hsome ih =>
    rw [scan_some hsome] at h ⊢
    obtain ⟨hfound, hitems⟩ := List.forall_mem_cons.mp h
    rw [rewriteMatches, List.flatMap_cons, Sum.elim_inr, hfound]
    exact congrArg (found ++ ·) (ih hitems)

theorem sub_eq_self (h : ∀ found ∈ p.findAll items, rewrite found = found) : p.sub rewrite items = items :=
  rewriteMatches_eq_self h

theorem infix_of_ahead {ahead before written found rest rest' : List α}
    (heq : ahead ++ (written ++ rest) = before ++ (found ++ rest')) (hahead : ahead.length ≤ before.length)
    (hreach : (before ++ found).length ≤ (ahead ++ written).length) : found <:+: written := by
  have hbefore : ahead <+: before :=
    List.prefix_of_prefix_length_le ⟨_, heq⟩ (List.prefix_append _ _) hahead
  have hfound : before ++ found <+: ahead ++ written := by
    rw [← List.append_assoc, ← List.append_assoc] at heq
    exact List.prefix_of_prefix_length_le ⟨_, heq.symm⟩ (List.prefix_append _ _) hreach
  obtain ⟨between, rfl⟩ := hbefore
  rw [List.append_assoc, List.prefix_append_right_inj] at hfound
  exact (List.infix_append' between found []).trans (by simpa using hfound.isInfix)

/-- Where a substitution stands no later than the list that it is part of, it stands at the same place and changes no
match: what a changed match was rewritten to would hold the match itself. -/
theorem rewriteMatches_aligned
    (h : ∀ found ∈ (p.scan prev items).filterMap Sum.getRight?, rewrite found = found ∨ ¬found <:+: rewrite found)
    {before ahead after : List α}
    (heq : ahead ++ rewriteMatches rewrite (p.scan prev items) = before ++ (items ++ after))
    (hle : ahead.length ≤ before.length) :
    ahead.length = before.length ∧ ∀ found ∈ (p.scan prev items).filterMap Sum.getRight?, rewrite found = found := by
  induction prev, items using p.scan_induction generalizing before ahead with
  | nil prev =>
    have := congrArg List.length heq
    simp only [scan_nil, rewriteMatches, List.flatMap_nil, List.length_append, List.length_nil] at this
    exact ⟨by omega, fun found hfound => by cases hfound⟩
  | skip prev item items hnone ih =>
    rw [scan_none hnone] at h heq ⊢
    have heq' : (ahead ++ [item]) ++ rewriteMatches rewrite (p.scan (some item) items) =
        (before ++ [item]) ++ (items ++ after) := by
      rw [List.append_assoc, List.append_assoc]
      exact heq
    obtain ⟨hlength, hsame⟩ := ih h heq' (by simpa using hle)
    exact ⟨by simpa using hlength, hsame⟩
  | found prev found items hsome ih =>
    rw [scan_some hsome] at h heq ⊢
    obtain ⟨hfound, hitems⟩ := List.forall_mem_cons.mp h
    rw [rewriteMatches, List.flatMap_cons, Sum.elim_inr, List.append_assoc] at heq
    have heq' : (ahead ++ rewrite found) ++ rewriteMatches rewrite (p.scan found.getLast? items) =
        (before ++ found) ++ (items ++ after) := by
      rw [List.append_assoc, List.append_assoc]
      exact heq
    rcases hfound with hsame | hnew
    · rw [hsame] at heq'
      obtain ⟨hlength, hlater⟩ := ih hitems heq' (by simpa using hle)
      exact ⟨by simpa using hlength, List.forall_mem_cons.mpr ⟨hsame, hlater⟩⟩
    · rcases Nat.lt_or_ge (ahead ++ rewrite found).length (before ++ found).length with hlt | hge
      · exact absurd (ih hitems heq' (Nat.le_of_lt hlt)).1 (Nat.ne_of_lt hlt)
      · exact absurd (infix_of_ahead heq hle hge) hnew

theorem forall_of_infix (h : ∀ found ∈ p.findAll items, rewrite found = found ∨ ¬found <:+: rewrite found)
    (hstands : items <:+: p.sub rewrite items) : ∀ found ∈ p.findAll items, rewrite found = found := by
  obtain ⟨before, after, heq⟩ := hstands
  rw [List.append_assoc] at heq
  exact (rewriteMatches_aligned h (List.nil_append _ |>.trans heq.symm) (Nat.zero_le _)).2

/-! ### Walls -/

/-- A pattern that takes an item of some kind for an end of the list. -/
structure StopsAt (p : Pattern α) (wall : α → Prop) : Prop where
  before : ∀ {b : α}, wall b → ∀ (prev : Option α) (items rest : List α), (∀ item ∈ items, ¬wall item) →
    p.matchAt prev (items ++ b :: rest) = p.matchAt prev items
  after : ∀ {b : α}, wall b → ∀ items, p.matchAt (some b) items = p.matchAt none items

variable {wall : α → Prop} {b : α}

theorem StopsAt.scan_after (h : p.StopsAt wall) (hb : wall b) (items : List α) :
    p.scan (some b) items = p.scan none items := by
  cases items with
  | nil => rfl
  | cons item items => rw [scan, scan, scanFrom, scanFrom, h.after hb]

theorem StopsAt.scan_append (h : p.StopsAt wall) (hb : wall b) {items : List α} (hitems : ∀ item ∈ items, ¬wall item)
    (rest : List α) : p.scan prev (items ++ b :: rest) = p.scan prev items ++ .inl b :: p.scan none rest := by
  induction prev, items using p.scan_induction with
  | nil prev =>
    have hnone := h.before hb prev [] rest hitems
    rw [matchAt_nil] at hnone
    rw [List.nil_append, scan_none hnone, h.scan_after hb]
    rfl
  | skip prev item items hnone ih =>
    have hnone' := h.before hb prev (item :: items) rest hitems
    rw [hnone, List.cons_append] at hnone'
    rw [List.cons_append, scan_none hnone', scan_none hnone,
      ih fun other hother => hitems other (List.mem_cons_of_mem _ hother)]
    rfl
  | found prev found items hsome ih =>
    have hsome' := h.before hb prev (found ++ items) rest hitems
    rw [hsome, List.append_assoc] at hsome'
    rw [List.append_assoc, scan_some hsome', scan_some hsome,
      ih fun other hother => hitems other (List.mem_append_right _ hother)]
    rfl

theorem StopsAt.findAll_append (h : p.StopsAt wall) (hb : wall b) (hitems : ∀ item ∈ items, ¬wall item)
    (rest : List α) : p.findAll (items ++ b :: rest) = p.findAll items ++ p.findAll rest := by
  rw [findAll, h.scan_append hb hitems, List.filterMap_append]
  rfl

theorem StopsAt.findAll_walls (h : p.StopsAt wall) {walls : List α} (hwalls : ∀ b ∈ walls, wall b) (rest : List α) :
    p.findAll (walls ++ rest) = p.findAll rest := by
  induction walls with
  | nil => rfl
  | cons b walls ih =>
    obtain ⟨hb, hwalls⟩ := List.forall_mem_cons.mp hwalls
    rw [← ih hwalls]
    exact h.findAll_append hb (List.forall_mem_nil _) (walls ++ rest)

theorem StopsAt.sub_append (h : p.StopsAt wall) (hb : wall b) (hitems : ∀ item ∈ items, ¬wall item)
    (rest : List α) : p.sub rewrite (items ++ b :: rest) = p.sub rewrite items ++ b :: p.sub rewrite rest := by
  rw [sub, h.scan_append hb hitems, rewriteMatches, List.flatMap_append]
  rfl

end Pattern

end VidbyteSdk.Lib
