import Mathlib.Data.List.Basic

/-!
# Programs over a state, with exceptions and a history

`Prog κ ε α` is a program over states `κ` that may raise an `ε` and that records every state it
passes through. The record is what an invariant "at every moment of the run" speaks about: it holds
the states between two writes, also of a program that later raises.

`wp I m Q E s` is the weakest precondition of `m` at `s`: every state passed through satisfies `I`, a
normal end satisfies `Q` and an exceptional end satisfies `E`. There is one rewrite rule for each way
a program is built, and the rules for loops and for monotonicity. `Keeps`, `Maintains` and `Leaves` are
the three ways it is used: what a program never breaks, what it never breaks and reaches, and what part
of the state it never changes.
-/

namespace VidbyteSdk.Lib

/-- What a call raised, by the name of its type: an `Exception`, or any other `BaseException`. -/
inductive Raised where
  | exception (typeName : String)
  | baseException (typeName : String)
  deriving DecidableEq

def Raised.typeName : Raised → String
  | .exception typeName | .baseException typeName => typeName

/-- Code outside the model: a function of its argument and of the world that may raise. -/
abbrev Callback (W α β : Type) : Type := α → W → Except Raised β × W

/-- One run of a program: the states it passed through, how it ended and in which state. -/
structure Outcome (κ ε α : Type) where
  visited : List κ
  result : Except ε α
  final : κ

/-- A program over states `κ` that may raise an `ε`. -/
def Prog (κ ε α : Type) : Type := κ → Outcome κ ε α

namespace Prog

variable {κ σ ε δ α β : Type}

protected def pure (a : α) : Prog κ ε α := fun s => ⟨[], .ok a, s⟩

protected def bind (m : Prog κ ε α) (f : α → Prog κ ε β) : Prog κ ε β := fun s =>
  match (m s).result with
  | .error e => ⟨(m s).visited, .error e, (m s).final⟩
  | .ok a =>
    let o := f a (m s).final
    ⟨(m s).visited ++ o.visited, o.result, o.final⟩

instance : Monad (Prog κ ε) where
  pure := Prog.pure
  bind := Prog.bind

/-- Raises `e`. -/
def throw (e : ε) : Prog κ ε α := fun s => ⟨[], .error e, s⟩

def get : Prog κ ε κ := fun s => ⟨[], .ok s, s⟩

/-- Moves to another state, which the run passes through. -/
def modify (f : κ → κ) : Prog κ ε Unit := fun s => ⟨[f s], .ok (), f s⟩

/-- Runs the handler on an exception of `m`, in the state `m` raised it. -/
def tryCatch (m : Prog κ ε α) (handler : ε → Prog κ δ α) : Prog κ δ α := fun s =>
  match (m s).result with
  | .ok a => ⟨(m s).visited, .ok a, (m s).final⟩
  | .error e =>
    let o := handler e (m s).final
    ⟨(m s).visited ++ o.visited, o.result, o.final⟩

/-- The value of `x`, or its exception raised. -/
def ofExcept (x : Except ε α) : Prog κ ε α := fun s => ⟨[], x, s⟩

def zoom (part : κ → σ) (put : σ → κ → κ) (m : Prog σ ε α) : Prog κ ε α := fun s =>
  let o := m (part s)
  ⟨o.visited.map (put · s), o.result, put o.final s⟩

/-- Raises `e` where `c` holds. -/
def throwIf (c : Prop) [Decidable c] (e : ε) : Prog κ ε Unit :=
  if c then throw e else pure ()

/-- Every state passed through satisfies `I`; a normal end satisfies `Q`, a raised one `E`. -/
def wp (I : κ → Prop) (m : Prog κ ε α) (Q : α → κ → Prop) (E : ε → κ → Prop) (s : κ) : Prop :=
  (∀ c ∈ (m s).visited, I c) ∧
    match (m s).result with
    | .ok a => Q a (m s).final
    | .error e => E e (m s).final

section Rules

variable {I : κ → Prop} {Q : α → κ → Prop} {R : β → κ → Prop} {E : ε → κ → Prop} {s : κ}

@[simp] theorem wp_pure (a : α) : wp I (pure a) Q E s ↔ Q a s := by
  simp [wp, Pure.pure, Prog.pure]

@[simp] theorem wp_throw (e : ε) : wp I (throw e) Q E s ↔ E e s := by
  simp [wp, throw]

@[simp] theorem wp_get {Q : κ → κ → Prop} : wp I get Q E s ↔ Q s s := by
  simp [wp, get]

@[simp] theorem wp_modify (f : κ → κ) {Q : Unit → κ → Prop} :
    wp I (modify f) Q E s ↔ I (f s) ∧ Q () (f s) := by
  simp [wp, modify]

@[simp] theorem wp_ofExcept_ok (a : α) : wp I (ofExcept (.ok a)) Q E s ↔ Q a s := by
  simp [wp, ofExcept]

@[simp] theorem wp_ofExcept_error (e : ε) : wp I (ofExcept (.error e)) Q E s ↔ E e s := by
  simp [wp, ofExcept]

theorem wp_ofExcept (x : Except ε α) :
    wp I (ofExcept x) Q E s ↔ (∀ a, x = .ok a → Q a s) ∧ ∀ e, x = .error e → E e s := by
  cases x <;> simp

@[simp] theorem wp_bind (m : Prog κ ε α) (f : α → Prog κ ε β) :
    wp I (m >>= f) R E s ↔ wp I m (fun a t => wp I (f a) R E t) E s := by
  simp only [wp, Bind.bind, Prog.bind]
  cases (m s).result with
  | error e => rfl
  | ok a =>
    simp only [List.mem_append, or_imp, forall_and]
    exact and_assoc

@[simp] theorem wp_map (f : α → β) (m : Prog κ ε α) :
    wp I (f <$> m) R E s ↔ wp I m (fun a t => R (f a) t) E s := by
  have h : f <$> m = m >>= fun a => pure (f a) := rfl
  rw [h, wp_bind]
  simp

@[simp] theorem wp_tryCatch {δ : Type} {E : δ → κ → Prop} (m : Prog κ ε α)
    (handler : ε → Prog κ δ α) :
    wp I (tryCatch m handler) Q E s ↔ wp I m Q (fun e t => wp I (handler e) Q E t) s := by
  simp only [wp, tryCatch]
  cases (m s).result with
  | ok a => rfl
  | error e =>
    simp only [List.mem_append, or_imp, forall_and]
    exact and_assoc

@[simp] theorem wp_zoom (part : κ → σ) (put : σ → κ → κ) (m : Prog σ ε α) :
    wp I (zoom part put m) Q E s
      ↔ wp (fun t => I (put t s)) m (fun a t => Q a (put t s)) (fun e t => E e (put t s)) (part s) := by
  simp only [wp, zoom, List.mem_map, forall_exists_index, and_imp, forall_apply_eq_imp_iff₂]

theorem wp_ite (c : Prop) [Decidable c] (m n : Prog κ ε α) :
    wp I (if c then m else n) Q E s ↔ (c → wp I m Q E s) ∧ (¬c → wp I n Q E s) := by
  by_cases h : c <;> simp [h]

@[simp] theorem wp_throwIf (c : Prop) [Decidable c] (e : ε) {Q : Unit → κ → Prop} :
    wp I (throwIf c e) Q E s ↔ (c → E e s) ∧ (¬c → Q () s) := by
  unfold throwIf
  rw [wp_ite, wp_throw, wp_pure]

theorem wp_mono {I' : κ → Prop} {Q' : α → κ → Prop} {E' : ε → κ → Prop} {m : Prog κ ε α}
    (h : wp I m Q E s) (hI : ∀ t, I t → I' t) (hQ : ∀ a t, Q a t → Q' a t)
    (hE : ∀ e t, E e t → E' e t) : wp I' m Q' E' s := by
  refine ⟨fun c hc => hI c (h.1 c hc), ?_⟩
  have h2 := h.2
  cases hr : (m s).result with
  | ok a => rw [hr] at h2; exact hQ a _ h2
  | error e => rw [hr] at h2; exact hE e _ h2

theorem wp_ends {m : Prog κ ε α} (h : wp I m Q E s) :
    (∀ a, (m s).result = .ok a → Q a (m s).final) ∧ ∀ e, (m s).result = .error e → E e (m s).final := by
  have hend := h.2
  constructor
  · intro a ha
    rw [ha] at hend
    exact hend
  · intro e he
    rw [he] at hend
    exact hend

theorem wp_of_forall {m : Prog κ ε α} (hI : ∀ t, I t) (hQ : ∀ a t, Q a t) (hE : ∀ e t, E e t) :
    wp I m Q E s := by
  refine ⟨fun c _ => hI c, ?_⟩
  cases (m s).result with
  | ok a => exact hQ a _
  | error e => exact hE e _

theorem wp_post {Q' : α → κ → Prop} {E' : ε → κ → Prop} {m : Prog κ ε α}
    (h : wp I m Q E s) (hQ : ∀ a t, Q a t → Q' a t) (hE : ∀ e t, E e t → E' e t) :
    wp I m Q' E' s :=
  wp_mono h (fun _ => id) hQ hE

theorem wp_forM {J : κ → Prop} (l : List α) (body : α → Prog κ ε PUnit)
    (hbody : ∀ a ∈ l, ∀ t, J t → wp I (body a) (fun _ => J) E t) (hs : J s) :
    wp I (forM l body) (fun _ => J) E s := by
  induction l generalizing s with
  | nil => simpa using hs
  | cons a l ih =>
    rw [List.forM_cons, wp_bind]
    refine wp_post (hbody a (by simp) s hs) (fun _ t ht => ?_) (fun _ _ => id)
    exact ih (fun b hb => hbody b (by simp [hb])) ht

end Rules

/-- The program keeps `J`, wherever it passes and however it ends. -/
def Keeps (J : κ → Prop) (m : Prog κ ε α) : Prop :=
  ∀ s, J s → wp J m (fun _ => J) (fun _ => J) s

namespace Keeps

variable {J : κ → Prop} {m : Prog κ ε α}

theorem pure (a : α) : Keeps J (Pure.pure a : Prog κ ε α) := fun _ hs => (wp_pure a).mpr hs

theorem throw (e : ε) : Keeps J (Prog.throw e : Prog κ ε α) := fun _ hs => (wp_throw e).mpr hs

theorem get : Keeps J (Prog.get : Prog κ ε κ) := fun _ hs => wp_get.mpr hs

theorem modify {f : κ → κ} (h : ∀ s, J s → J (f s)) : Keeps J (Prog.modify f : Prog κ ε Unit) :=
  fun s hs => (wp_modify f).mpr ⟨h s hs, h s hs⟩

theorem bind {f : α → Prog κ ε β} (h : Keeps J m) (hf : ∀ a, Keeps J (f a)) : Keeps J (m >>= f) :=
  fun s hs => (wp_bind m f).mpr (wp_post (h s hs) (fun a t ht => hf a t ht) fun _ _ ht => ht)

theorem map {f : α → β} (h : Keeps J m) : Keeps J (f <$> m) :=
  fun s hs => (wp_map f m).mpr (h s hs)

theorem tryCatch {handler : ε → Prog κ δ α} (h : Keeps J m) (hh : ∀ e, Keeps J (handler e)) :
    Keeps J (Prog.tryCatch m handler) :=
  fun s hs => (wp_tryCatch m handler).mpr (wp_post (h s hs) (fun _ _ ht => ht) fun e t ht => hh e t ht)

theorem ite {c : Prop} [Decidable c] {n : Prog κ ε α} (hm : Keeps J m) (hn : Keeps J n) :
    Keeps J (if c then m else n) := by
  by_cases hc : c
  · rw [if_pos hc]
    exact hm
  · rw [if_neg hc]
    exact hn

end Keeps

/-- Wherever the program passes and however it ends, `P` holds; a normal end satisfies `Q`. -/
def Maintains (P : κ → Prop) (m : Prog κ ε α) (Q : α → κ → Prop) (s : κ) : Prop :=
  wp P m Q (fun _ => P) s

namespace Maintains

variable {P : κ → Prop} {m : Prog κ ε α} {Q : α → κ → Prop} {R : β → κ → Prop} {s : κ}

theorem pure {a : α} (h : Q a s) : Maintains P (Pure.pure a : Prog κ ε α) Q s := (wp_pure a).mpr h

theorem throw {e : ε} (h : P s) : Maintains P (Prog.throw e : Prog κ ε α) Q s := (wp_throw e).mpr h

theorem bind {f : α → Prog κ ε β} (h : Maintains P m (fun a t => Maintains P (f a) R t) s) :
    Maintains P (m >>= f) R s :=
  (wp_bind m f).mpr h

theorem map (g : α → β) (h : Maintains P m (fun a t => R (g a) t) s) : Maintains P (g <$> m) R s :=
  (wp_map g m).mpr h

theorem post {Q' : α → κ → Prop} (h : Maintains P m Q s) (hQ : ∀ a t, Q a t → Q' a t) :
    Maintains P m Q' s :=
  wp_post h hQ fun _ _ => id

end Maintains

theorem Keeps.maintains {J P : κ → Prop} {m : Prog κ ε α} {s : κ} (hm : Keeps J m)
    (hP : ∀ t, J t → P t) (hs : J s) : Maintains P m (fun _ => J) s :=
  wp_mono (hm s hs) hP (fun _ _ => id) fun _ => hP

/-- The program leaves what `view` shows of the state alone. -/
def Leaves {V : Type} (view : κ → V) (m : Prog κ ε α) : Prop :=
  ∀ v, Keeps (fun s => view s = v) m

namespace Leaves

variable {V : Type} {view : κ → V} {m : Prog κ ε α} {P : V → Prop} {s : κ}

theorem pure (a : α) : Leaves view (Pure.pure a : Prog κ ε α) := fun _ => Keeps.pure a

theorem throw (e : ε) : Leaves view (Prog.throw e : Prog κ ε α) := fun _ => Keeps.throw e

theorem get : Leaves view (Prog.get : Prog κ ε κ) := fun _ => Keeps.get

theorem modify {f : κ → κ} (h : ∀ s, view (f s) = view s) :
    Leaves view (Prog.modify f : Prog κ ε Unit) := by
  intro v
  apply Keeps.modify
  intro s hs
  rw [h s, hs]

theorem bind {f : α → Prog κ ε β} (hm : Leaves view m) (hf : ∀ a, Leaves view (f a)) :
    Leaves view (m >>= f) :=
  fun v => (hm v).bind fun a => hf a v

theorem map (g : α → β) (hm : Leaves view m) : Leaves view (g <$> m) := fun v => (hm v).map

theorem ite {c : Prop} [Decidable c] {n : Prog κ ε α} (hm : Leaves view m) (hn : Leaves view n) :
    Leaves view (if c then m else n) :=
  fun v => (hm v).ite (hn v)

theorem keeps (hm : Leaves view m) : Keeps (fun s => P (view s)) m := by
  intro s hs
  have hsame : ∀ t, view t = view s → P (view t) := by
    intro t ht
    rw [ht]
    exact hs
  exact wp_mono (hm (view s) s rfl) hsame (fun _ => hsame) (fun _ => hsame)

theorem maintains (hm : Leaves view m) (hs : P (view s)) :
    Maintains (fun t => P (view t)) m (fun _ t => view t = view s) s := by
  refine wp_mono (hm (view s) s rfl) ?_ (fun _ _ => id) ?_
  · intro t ht
    show P (view t)
    rw [ht]
    exact hs
  · intro _ t ht
    show P (view t)
    rw [ht]
    exact hs

theorem andThen {f : α → Prog κ ε β} {R : β → κ → Prop} (hm : Leaves view m) (hs : P (view s))
    (hf : ∀ a t, view t = view s → Maintains (fun t => P (view t)) (f a) R t) :
    Maintains (fun t => P (view t)) (m >>= f) R s :=
  ((hm.maintains hs).post hf).bind

theorem ends (hm : Leaves view m) (hs : P (view s)) :
    Maintains (fun t => P (view t)) m (fun _ t => P (view t)) s :=
  hm.keeps.maintains (fun _ => id) hs

end Leaves

end Prog

end VidbyteSdk.Lib
