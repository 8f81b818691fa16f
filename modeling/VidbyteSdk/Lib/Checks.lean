import Mathlib.Data.List.Forall2

/-!
# Checks that return

What is known once a program in `Except` has returned: each of its steps did.
-/

namespace VidbyteSdk.Lib

variable {ε α β : Type}

theorem bind_eq_ok {m : Except ε α} {f : α → Except ε β} {b : β} (h : m >>= f = .ok b) :
    ∃ a, m = .ok a ∧ f a = .ok b := by
  cases m with
  | error e => cases h
  | ok a => exact ⟨a, rfl, h⟩

theorem bind_ne_error {m : Except ε α} {f : α → Except ε β} {e : ε} (h : m ≠ .error e) (hf : ∀ a, f a ≠ .error e) :
    m >>= f ≠ .error e := by
  cases m with
  | error other => exact fun hsame => h (congrArg Except.error (Except.error.inj hsame))
  | ok a => exact hf a

theorem pure_ne_error {a : α} {e : ε} : (pure a : Except ε α) ≠ .error e := nofun

theorem mapM_ne_error {f : α → Except ε β} {e : ε} (h : ∀ a, f a ≠ .error e) (l : List α) : l.mapM f ≠ .error e := by
  induction l with
  | nil => exact pure_ne_error
  | cons a l ih =>
    rw [List.mapM_cons]
    exact bind_ne_error (h a) fun b => bind_ne_error ih fun bs => pure_ne_error

theorem forM_eq_ok {f : α → Except ε Unit} {l : List α} (h : l.forM f = .ok ()) :
    ∀ a ∈ l, f a = .ok () := by
  induction l with
  | nil => exact nofun
  | cons a l ih =>
    change (f a >>= fun _ => l.forM f) = _ at h
    obtain ⟨⟨⟩, ha, hrest⟩ := bind_eq_ok h
    intro b hb
    rcases List.mem_cons.mp hb with rfl | hb
    · exact ha
    · exact ih hrest b hb

theorem andThen_eq_ok {m : Except ε Unit} {n : Except ε β} {b : β} :
    (m >>= fun _ => n) = .ok b ↔ m = .ok () ∧ n = .ok b := by
  cases m with
  | error e => exact iff_of_false nofun fun h => nomatch h.1
  | ok a => exact ⟨fun h => ⟨rfl, h⟩, fun h => h.2⟩

theorem forM_eq_ok_iff {f : α → Except ε Unit} {l : List α} :
    l.forM f = .ok () ↔ ∀ a ∈ l, f a = .ok () := by
  refine ⟨forM_eq_ok, fun h => ?_⟩
  induction l with
  | nil => rfl
  | cons a l ih =>
    change (f a >>= fun _ => l.forM f) = _
    exact andThen_eq_ok.mpr ⟨h a List.mem_cons_self, ih fun b hb => h b (List.mem_cons_of_mem a hb)⟩

variable {bs : List β}

theorem mapM_eq_ok {f : α → Except ε β} {l : List α} (h : l.mapM f = .ok bs) :
    List.Forall₂ (fun a b => f a = .ok b) l bs := by
  induction l generalizing bs with
  | nil =>
    cases h
    exact List.Forall₂.nil
  | cons a l ih =>
    rw [List.mapM_cons] at h
    obtain ⟨b, hb, hrest⟩ := bind_eq_ok h
    obtain ⟨bs', hbs, hresult⟩ := bind_eq_ok hrest
    cases hresult
    exact List.Forall₂.cons hb (ih hbs)

theorem ok_of_mem_of_mapM {f : α → Except ε β} {l : List α} (h : l.mapM f = .ok bs) {a : α}
    (ha : a ∈ l) : ∃ b, f a = .ok b := by
  induction l generalizing bs with
  | nil => cases ha
  | cons c l ih =>
    rw [List.mapM_cons] at h
    obtain ⟨b, hb, hrest⟩ := bind_eq_ok h
    obtain ⟨bs', hbs, -⟩ := bind_eq_ok hrest
    rcases List.mem_cons.mp ha with rfl | ha
    · exact ⟨b, hb⟩
    · exact ih hbs ha

/-! ### Values that are there -/

theorem mapM_eq_some {f : α → Option β} {l : List α} (h : l.mapM f = some bs) :
    List.Forall₂ (fun a b => f a = some b) l bs := by
  induction l generalizing bs with
  | nil =>
    cases h
    exact List.Forall₂.nil
  | cons a l ih =>
    rw [List.mapM_cons] at h
    obtain ⟨b, hb, h⟩ := Option.bind_eq_some_iff.mp h
    obtain ⟨bs', hbs, h⟩ := Option.bind_eq_some_iff.mp h
    cases h
    exact List.Forall₂.cons hb (ih hbs)

theorem mapM_eq_some_iff {f : α → Option β} {l : List α} :
    l.mapM f = some bs ↔ List.Forall₂ (fun a b => f a = some b) l bs := by
  refine ⟨mapM_eq_some, fun h => ?_⟩
  induction h with
  | nil => rfl
  | cons hb _ ih =>
    rw [List.mapM_cons, hb, ih]
    rfl

theorem mapM_congr {f g : α → Option β} {l : List α} (h : ∀ a ∈ l, f a = g a) : l.mapM f = l.mapM g := by
  induction l with
  | nil => rfl
  | cons a l ih =>
    obtain ⟨ha, hl⟩ := List.forall_mem_cons.mp h
    rw [List.mapM_cons, List.mapM_cons, ha, ih hl]

theorem mem_of_mapM_eq_some {f : α → Option β} {l : List α} (h : l.mapM f = some bs) (b : β) :
    b ∈ bs ↔ ∃ a ∈ l, f a = some b := by
  induction mapM_eq_some h with
  | nil => exact iff_of_false List.not_mem_nil fun ⟨_, ha, _⟩ => List.not_mem_nil ha
  | @cons a c l bs hc hbs ih =>
    rw [List.mem_cons, List.exists_mem_cons_iff, hc, ih (mapM_eq_some_iff.mpr hbs), Option.some_inj, eq_comm]

theorem exists_of_mapM_eq_some {f : α → Option β} {l : List α} (h : l.mapM f = some bs) {a : α}
    (ha : a ∈ l) : ∃ b ∈ bs, f a = some b := by
  induction mapM_eq_some h with
  | nil => cases ha
  | @cons c b l bs hb hbs ih =>
    rcases List.mem_cons.mp ha with rfl | ha
    · exact ⟨b, List.mem_cons_self, hb⟩
    · obtain ⟨b', hb', hvalue⟩ := ih (mapM_eq_some_iff.mpr hbs) ha
      exact ⟨b', List.mem_cons_of_mem _ hb', hvalue⟩

theorem length_of_mapM_eq_some {f : α → Option β} {l : List α} (h : l.mapM f = some bs) :
    bs.length = l.length :=
  (mapM_eq_some h).length_eq.symm

theorem mapM_eq_some_self {f : α → Option α} {l : List α} (h : ∀ a ∈ l, f a = some a) : l.mapM f = some l :=
  mapM_eq_some_iff.mpr (List.forall₂_same.mpr h)

theorem exists_mapM_eq_some {f : α → Option β} {l : List α} (h : ∀ a ∈ l, ∃ b, f a = some b) :
    ∃ bs, l.mapM f = some bs := by
  induction l with
  | nil => exact ⟨[], rfl⟩
  | cons a l ih =>
    obtain ⟨b, hb⟩ := h a List.mem_cons_self
    obtain ⟨bs, hbs⟩ := ih fun c hc => h c (List.mem_cons_of_mem _ hc)
    exact ⟨b :: bs, by rw [List.mapM_cons, hb, hbs]; rfl⟩

/-! ### Tests that never raise -/

variable {f : α → Except ε Bool} {p : α → Bool} {l : List α}

theorem allM_eq_all (h : ∀ a ∈ l, f a = .ok (p a)) : l.allM f = .ok (l.all p) := by
  induction l with
  | nil => rfl
  | cons a l ih =>
    rw [List.allM, h a List.mem_cons_self, ih fun b hb => h b (List.mem_cons_of_mem _ hb)]
    cases hp : p a <;> simp [Bind.bind, Except.bind, hp, Pure.pure, Except.pure]

theorem anyM_eq_any (h : ∀ a ∈ l, f a = .ok (p a)) : l.anyM f = .ok (l.any p) := by
  induction l with
  | nil => rfl
  | cons a l ih =>
    rw [List.anyM, h a List.mem_cons_self, ih fun b hb => h b (List.mem_cons_of_mem _ hb)]
    cases hp : p a <;> simp [Bind.bind, Except.bind, hp, Pure.pure, Except.pure]

end VidbyteSdk.Lib
