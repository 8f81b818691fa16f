import Mathlib.Data.Fintype.EquivFin
import Mathlib.Order.WellFounded

/-!
# Depth-first search

A graph is given by the list of each node's dependencies. `visit` colours what it can reach and
stops at a cycle; `collect` gathers what it can reach. Both recurse on a fuel, which is enough when
it is more than the number of nodes not reached yet in a set of nodes that dependencies do not
leave.
-/

namespace VidbyteSdk.Lib

variable {κ : Type*}

/-- `b` is a dependency of `a`. -/
def DependsOn (deps : κ → List κ) (a b : κ) : Prop := b ∈ deps a

def ClosedUnder (deps : κ → List κ) (nodes : List κ) : Prop := ∀ a ∈ nodes, ∀ b ∈ deps a, b ∈ nodes

theorem ClosedUnder.reach {deps : κ → List κ} {nodes : List κ} (h : ClosedUnder deps nodes) {a b : κ}
    (ha : a ∈ nodes) (hab : Relation.ReflTransGen (DependsOn deps) a b) : b ∈ nodes := by
  induction hab with
  | refl => exact ha
  | tail _ hbc ih => exact h _ ih _ hbc

/-- A descent through dependencies ends: of the nodes below `a` with `p`, one has no dependency
with `p`. -/
theorem exists_minimal_dependency {deps : κ → List κ} {nodes : List κ} (hclosed : ClosedUnder deps nodes)
    (hacyclic : ∀ a ∈ nodes, ¬ Relation.TransGen (DependsOn deps) a a) {p : κ → Prop} {a : κ}
    (ha : a ∈ nodes) (hp : p a) :
    ∃ b, Relation.ReflTransGen (DependsOn deps) a b ∧ p b ∧ ∀ c ∈ deps b, ¬ p c := by
  classical
  let below : { b // b ∈ nodes } → { b // b ∈ nodes } → Prop :=
    fun b c => Relation.TransGen (DependsOn deps) c b
  have htrans : IsTrans _ below := ⟨fun _ _ _ hbc hcd => hcd.trans hbc⟩
  have hirrefl : Std.Irrefl below := ⟨fun b => hacyclic b.1 b.2⟩
  have hwell : WellFounded below := Finite.wellFounded_of_trans_of_irrefl below
  obtain ⟨b, ⟨hab, hpb⟩, hmin⟩ := hwell.has_min
    { b | Relation.ReflTransGen (DependsOn deps) a b.1 ∧ p b.1 } ⟨⟨a, ha⟩, .refl, hp⟩
  refine ⟨b, hab, hpb, fun c hc hpc => ?_⟩
  exact hmin ⟨c, hclosed b b.2 c hc⟩ ⟨hab.tail hc, hpc⟩ (.single hc)

/-! ### Colouring -/

inductive Color
  | gray
  | black
  deriving DecidableEq

abbrev Colors (κ : Type*) := κ → Option Color

variable {deps : κ → List κ} {colors colors' : Colors κ}

/-- A search leaves the gray nodes as they are, and uncolours none. -/
structure Colored (colors colors' : Colors κ) : Prop where
  gray : ∀ a, colors' a = some .gray ↔ colors a = some .gray
  black : ∀ a, colors a = some .black → colors' a = some .black

theorem Colored.refl (colors : Colors κ) : Colored colors colors := ⟨fun _ => Iff.rfl, fun _ => id⟩

theorem Colored.trans {c d e : Colors κ} (h : Colored c d) (h' : Colored d e) : Colored c e :=
  ⟨fun a => (h'.gray a).trans (h.gray a), fun a ha => h'.black a (h.black a ha)⟩

/-- What the black nodes satisfy: their dependencies are black, and no cycle goes through one. -/
structure Settled (deps : κ → List κ) (colors : Colors κ) : Prop where
  closed : ∀ a, colors a = some .black → ∀ b ∈ deps a, colors b = some .black
  acyclic : ∀ a, colors a = some .black → ¬ Relation.TransGen (DependsOn deps) a a

theorem Settled.reach (h : Settled deps colors) {a b : κ} (ha : colors a = some .black)
    (hab : Relation.ReflTransGen (DependsOn deps) a b) : colors b = some .black := by
  induction hab with
  | refl => exact ha
  | tail _ hbc ih => exact h.closed _ ih _ hbc

variable [DecidableEq κ] {v : κ} {ids : List κ} {fuel : ℕ}

/-- Colours what `v` can reach, or stops at the node that closes a cycle. -/
def visit (deps : κ → List κ) : ℕ → Colors κ → κ → Except κ (Colors κ)
  | 0, _, v => .error v
  | fuel + 1, colors, v =>
    match colors v with
    | some .gray => .error v
    | some .black => .ok colors
    | none => do
      let colors ← (deps v).foldlM (visit deps fuel) (Function.update colors v (some .gray))
      .ok (Function.update colors v (some .black))

theorem foldlM_visit {R : Colors κ → Colors κ → Prop} (hrefl : ∀ c, R c c)
    (htrans : ∀ {c d e}, R c d → R d e → R c e)
    (hone : ∀ c v c', visit deps fuel c v = .ok c' → R c c')
    (h : ids.foldlM (visit deps fuel) colors = .ok colors') : R colors colors' := by
  induction ids generalizing colors with
  | nil =>
    cases h
    exact hrefl _
  | cons v ids ih =>
    rw [List.foldlM_cons] at h
    cases hid : visit deps fuel colors v with
    | error c =>
      rw [hid] at h
      cases h
    | ok next =>
      rw [hid] at h
      exact htrans (hone _ _ _ hid) (ih h)

theorem visit_ok (h : visit deps (fuel + 1) colors v = .ok colors') :
    (colors v = some .black ∧ colors' = colors) ∨
      ∃ reached, colors v = none ∧
        (deps v).foldlM (visit deps fuel) (Function.update colors v (some .gray)) = .ok reached ∧
          colors' = Function.update reached v (some .black) := by
  rw [visit] at h
  split at h
  · cases h
  · next hblack => exact .inl ⟨hblack, (Except.ok.inj h).symm⟩
  · next hnone =>
    cases hreached : (deps v).foldlM (visit deps fuel)
        (Function.update colors v (some .gray)) with
    | error c =>
      rw [hreached] at h
      cases h
    | ok reached =>
      rw [hreached] at h
      exact .inr ⟨reached, hnone, rfl, (Except.ok.inj h).symm⟩

theorem visit_colored (h : visit deps fuel colors v = .ok colors') : Colored colors colors' := by
  induction fuel generalizing colors colors' v with
  | zero => cases h
  | succ fuel ih =>
    rcases visit_ok h with ⟨-, rfl⟩ | ⟨reached, hnone, hreached, rfl⟩
    · exact Colored.refl _
    have hcolored := foldlM_visit Colored.refl Colored.trans (fun _ _ _ => ih) hreached
    constructor
    · intro a
      by_cases ha : a = v
      · subst ha
        simp [hnone]
      · simp only [Function.update_of_ne ha, hcolored.gray]
    · intro a hblack
      have ha : a ≠ v := by
        rintro rfl
        rw [hnone] at hblack
        cases hblack
      rw [Function.update_of_ne ha]
      exact hcolored.black a (by rwa [Function.update_of_ne ha])

theorem Settled.gray (h : Settled deps colors) (hnone : colors v = none) :
    Settled deps (Function.update colors v (some .gray)) := by
  have hblack : ∀ a, Function.update colors v (some .gray) a = some .black ↔
      colors a = some .black := by
    intro a
    by_cases ha : a = v
    · subst ha
      simp [hnone]
    · rw [Function.update_of_ne ha]
  constructor
  · intro a ha b hb
    rw [hblack] at *
    exact h.closed a ha b hb
  · intro a ha
    exact h.acyclic a ((hblack a).mp ha)

theorem Settled.black (h : Settled deps colors) (hgray : colors v = some .gray)
    (hdeps : ∀ b ∈ deps v, colors b = some .black) :
    Settled deps (Function.update colors v (some .black)) := by
  have hkeep : ∀ b, colors b = some .black →
      Function.update colors v (some .black) b = some .black := by
    intro b hb
    by_cases hid : b = v
    · rw [hid, Function.update_self]
    · rwa [Function.update_of_ne hid]
  constructor
  · intro a ha b hb
    apply hkeep
    by_cases hid : a = v
    · exact hdeps b (hid ▸ hb)
    · rw [Function.update_of_ne hid] at ha
      exact h.closed a ha b hb
  · intro a ha hcycle
    by_cases hid : a = v
    · subst hid
      -- a cycle leaves the node through a black dependency, and cannot come back
      obtain ⟨b, hb, hback⟩ := Relation.TransGen.head'_iff.mp hcycle
      rw [h.reach (hdeps b hb) hback] at hgray
      cases hgray
    · rw [Function.update_of_ne hid] at ha
      exact h.acyclic a ha hcycle

def visitAll (deps : κ → List κ) (fuel : ℕ) (colors : Colors κ) (ids : List κ) :
    Except κ (Colors κ) :=
  ids.foldlM (visit deps fuel) colors

theorem visitAll_settled (hone : ∀ {c a c'}, Settled deps c → visit deps fuel c a = .ok c' →
      Settled deps c' ∧ c' a = some .black)
    (hsettled : Settled deps colors) (h : visitAll deps fuel colors ids = .ok colors') :
    Settled deps colors' ∧ ∀ a ∈ ids, colors' a = some .black := by
  induction ids generalizing colors with
  | nil =>
    cases h
    exact ⟨hsettled, nofun⟩
  | cons b ids ih =>
    rw [visitAll, List.foldlM_cons] at h
    cases hb : visit deps fuel colors b with
    | error c =>
      rw [hb] at h
      cases h
    | ok d =>
      rw [hb] at h
      obtain ⟨hd, hblack⟩ := hone hsettled hb
      obtain ⟨hc', hids⟩ := ih hd h
      have hcolored : Colored d colors' :=
        foldlM_visit Colored.refl Colored.trans (fun _ _ _ => visit_colored) h
      refine ⟨hc', fun a ha => ?_⟩
      rcases List.mem_cons.mp ha with rfl | ha
      · exact hcolored.black _ hblack
      · exact hids a ha

theorem visit_settled (hsettled : Settled deps colors) (h : visit deps fuel colors v = .ok colors') :
    Settled deps colors' ∧ colors' v = some .black := by
  induction fuel generalizing colors colors' v with
  | zero => cases h
  | succ fuel ih =>
    rcases visit_ok h with ⟨hblack, rfl⟩ | ⟨reached, hnone, hreached, rfl⟩
    · exact ⟨hsettled, hblack⟩
    obtain ⟨hsettled', hdeps⟩ := visitAll_settled ih (hsettled.gray hnone) hreached
    have hcolored := foldlM_visit Colored.refl Colored.trans (fun _ _ _ => visit_colored) hreached
    refine ⟨hsettled'.black ?_ hdeps, Function.update_self ..⟩
    exact (hcolored.gray v).mpr (Function.update_self ..)

/-! ### Gathering -/

/-- The nodes that `v` can reach, behind those gathered before. -/
def collect (deps : κ → List κ) : ℕ → List κ → κ → List κ
  | 0, needed, _ => needed
  | fuel + 1, needed, v =>
    if v ∈ needed then needed else (deps v).foldl (collect deps fuel) (needed ++ [v])

def ungathered (nodes needed : List κ) : ℕ := (nodes.filter fun a => a ∉ needed).length

variable {nodes needed needed' : List κ}

theorem ungathered_le (h : ∀ a ∈ needed, a ∈ needed') : ungathered nodes needed' ≤ ungathered nodes needed := by
  refine (List.monotone_filter_right nodes ?_).length_le
  intro a ha
  rw [decide_eq_true_eq] at *
  exact fun hmem => ha (h a hmem)

theorem ungathered_concat_lt (hid : v ∈ nodes) (hnew : v ∉ needed) :
    ungathered nodes (needed ++ [v]) < ungathered nodes needed := by
  have hfilter : (nodes.filter fun a => a ∉ needed ++ [v])
      = (nodes.filter fun a => a ∉ needed).filter fun a => a ≠ v := by
    rw [List.filter_filter]
    refine List.filter_congr fun a _ => ?_
    simp [and_comm]
  rw [ungathered, ungathered, hfilter]
  refine List.length_filter_lt_length_iff_exists.mpr ⟨v, ?_, by simp⟩
  rw [List.mem_filter]
  exact ⟨hid, by simpa using hnew⟩

/-- What a search adds: its start, reachable nodes only, and with each its dependencies. -/
structure Gathered (deps : κ → List κ) (roots needed needed' : List κ) : Prop where
  subset : ∀ a ∈ needed, a ∈ needed'
  start : ∀ r ∈ roots, r ∈ needed'
  closed : ∀ a ∈ needed', a ∉ needed → ∀ b ∈ deps a, b ∈ needed'
  reached : ∀ a ∈ needed', a ∉ needed → ∃ r ∈ roots, Relation.ReflTransGen (DependsOn deps) r a

variable {roots : List κ}

theorem Gathered.cons {needed'' : List κ}
    (h : Gathered deps [v] needed needed') (h' : Gathered deps roots needed' needed'') :
    Gathered deps (v :: roots) needed needed'' where
  subset a ha := h'.subset a (h.subset a ha)
  start r hr := by
    rcases List.mem_cons.mp hr with rfl | hr
    · exact h'.subset _ (h.start _ (List.mem_singleton_self _))
    · exact h'.start r hr
  closed a ha hnew b hb := by
    by_cases hold : a ∈ needed'
    · exact h'.subset b (h.closed a hold hnew b hb)
    · exact h'.closed a ha hold b hb
  reached a ha hnew := by
    by_cases hold : a ∈ needed'
    · obtain ⟨r, hr, hra⟩ := h.reached a hold hnew
      exact ⟨r, List.mem_cons.mpr (.inl (List.mem_singleton.mp hr)), hra⟩
    · obtain ⟨r, hr, hra⟩ := h'.reached a ha hold
      exact ⟨r, List.mem_cons_of_mem _ hr, hra⟩

omit [DecidableEq κ] in
theorem Gathered.nil (needed : List κ) : Gathered deps [] needed needed :=
  ⟨fun _ => id, nofun, fun _ ha hnew => absurd ha hnew, fun _ ha hnew => absurd ha hnew⟩

theorem foldl_gathered {search : List κ → κ → List κ} {P : List κ → Prop}
    (hone : ∀ needed v, P needed → v ∈ nodes → Gathered deps [v] needed (search needed v))
    (hkeep : ∀ {needed needed'}, P needed → (∀ a ∈ needed, a ∈ needed') → P needed')
    (hroots : ∀ r ∈ roots, r ∈ nodes) (hP : P needed) :
    Gathered deps roots needed (roots.foldl search needed) := by
  induction roots generalizing needed with
  | nil => exact Gathered.nil needed
  | cons r roots ih =>
    have hr := hone needed r hP (hroots r List.mem_cons_self)
    have hrest := fun b hb => hroots b (List.mem_cons_of_mem _ hb)
    exact hr.cons (ih hrest (hkeep hP hr.subset))

theorem collect_gathered (hclosed : ClosedUnder deps nodes) (hid : v ∈ nodes)
    (hfuel : ungathered nodes needed < fuel) : Gathered deps [v] needed (collect deps fuel needed v) := by
  induction fuel generalizing needed v with
  | zero => omega
  | succ fuel ih =>
    rw [collect]
    split
    · next hold =>
      refine ⟨fun _ => id, fun r hr => ?_, fun _ ha hnew => absurd ha hnew,
        fun _ ha hnew => absurd ha hnew⟩
      rwa [List.mem_singleton.mp hr]
    · next hnew =>
      have hlt := ungathered_concat_lt hid hnew
      have hfold := foldl_gathered (P := fun needed => ungathered nodes needed < fuel)
        (fun needed b hP hb => ih hb hP) (fun hP hsub => (ungathered_le hsub).trans_lt hP)
        (hclosed v hid) (by omega : ungathered nodes (needed ++ [v]) < fuel)
      have hself : v ∈ (deps v).foldl (collect deps fuel) (needed ++ [v]) :=
        hfold.subset v (by simp)
      refine ⟨fun a ha => hfold.subset a (by simp [ha]), ?_, ?_, ?_⟩
      · intro r hr
        rwa [List.mem_singleton.mp hr]
      · intro a ha hold b hb
        by_cases haid : a = v
        · subst haid
          exact hfold.start b hb
        · exact hfold.closed a ha (by simp [hold, haid]) b hb
      · intro a ha hold
        refine ⟨v, List.mem_singleton_self v, ?_⟩
        by_cases haid : a = v
        · rw [haid]
        · obtain ⟨b, hb, hba⟩ := hfold.reached a ha (by simp [hold, haid])
          exact Relation.ReflTransGen.head hb hba

theorem mem_foldl_collect (hclosed : ClosedUnder deps nodes)
    (hroots : ∀ r ∈ roots, r ∈ nodes) (hfuel : nodes.length < fuel) {a : κ} :
    a ∈ roots.foldl (collect deps fuel) [] ↔
      ∃ r ∈ roots, Relation.ReflTransGen (DependsOn deps) r a := by
  have hgathered : Gathered deps roots [] (roots.foldl (collect deps fuel) []) := by
    refine foldl_gathered (P := fun _ => True) (fun needed b _ hb => ?_) (fun _ _ => trivial)
      hroots trivial
    exact collect_gathered hclosed hb ((List.length_filter_le _ _).trans_lt hfuel)
  constructor
  · exact fun ha => hgathered.reached a ha (by simp)
  · rintro ⟨r, hr, hra⟩
    induction hra with
    | refl => exact hgathered.start r hr
    | tail _ hbc ih => exact hgathered.closed _ ih (by simp) _ hbc

end VidbyteSdk.Lib
