import VidbyteSdk.Lib.Prog

/-!
# Triples through a view

A triple speaks of what a view shows of the state before a program and after it, whether it ends
normally or raises. A program that leaves the view alone keeps whatever is said of it.
-/

namespace VidbyteSdk.Lib

namespace Prog

variable {κ ε δ α β V : Type}

namespace Leaves

variable {view : κ → V} {m : Prog κ ε α}

theorem tryCatch {handler : ε → Prog κ δ α} (hm : Leaves view m) (hh : ∀ e, Leaves view (handler e)) :
    Leaves view (Prog.tryCatch m handler) :=
  fun v => (hm v).tryCatch fun e => hh e v

theorem ofExcept (x : Except ε α) : Leaves view (Prog.ofExcept x : Prog κ ε α) := by
  intro v s hs
  cases x with
  | ok a => exact wp_ofExcept_ok a |>.mpr hs
  | error e => exact wp_ofExcept_error e |>.mpr hs

theorem throwIf (c : Prop) [Decidable c] (e : ε) :
    Leaves view (Prog.throwIf c e : Prog κ ε Unit) :=
  Leaves.ite (Leaves.throw e) (Leaves.pure ())

theorem forM (l : List α) {body : α → Prog κ ε PUnit} (hbody : ∀ a, Leaves view (body a)) :
    Leaves view (forM l body) := by
  intro v s hs
  have hloop := wp_forM (I := fun t => view t = v) (E := fun _ t => view t = v) l body
    (fun a _ t ht => hbody a v t ht) hs
  exact hloop

end Leaves

/-! ### Ends -/

theorem wp_final {m : Prog κ ε α} {I : κ → Prop} {Q : α → κ → Prop} {E : ε → κ → Prop} {s : κ}
    (h : wp I m Q E s) : wp I m (fun a t => Q a t ∧ t = (m s).final) E s := by
  refine ⟨h.1, ?_⟩
  have hend := h.2
  cases hresult : (m s).result with
  | ok a =>
    rw [hresult] at hend
    exact ⟨hend, rfl⟩
  | error e =>
    rw [hresult] at hend
    exact hend

theorem final_map (f : α → β) (m : Prog κ ε α) (s : κ) : ((f <$> m) s).final = (m s).final := by
  show (Prog.bind m (fun a => Prog.pure (f a)) s).final = (m s).final
  unfold Prog.bind
  cases (m s).result <;> rfl

/-- Two programs that go on alike from where `m` ends are alike. -/
theorem bind_congr {m : Prog κ ε α} {f g : α → Prog κ ε β} {s : κ}
    (h : ∀ a, (m s).result = .ok a → f a (m s).final = g a (m s).final) :
    (m >>= f) s = (m >>= g) s := by
  show Prog.bind m f s = Prog.bind m g s
  unfold Prog.bind
  cases hresult : (m s).result with
  | error e => rfl
  | ok a => simp only [h a hresult]

/-! ### Triples -/

/-- From every state that shows `P`, a normal end shows `Q` of its value and a raised one `E`. -/
def Triple (view : κ → V) (P : V → Prop) (m : Prog κ ε α) (Q : α → V → Prop) (E : V → Prop) : Prop :=
  ∀ s, P (view s) → wp (fun _ => True) m (fun a t => Q a (view t)) (fun _ t => E (view t)) s

namespace Triple

variable {view : κ → V} {P P' : V → Prop} {m : Prog κ ε α} {Q Q' : α → V → Prop}
  {R : β → V → Prop} {E E' : V → Prop}

theorem pure {a : α} (h : ∀ v, P v → Q a v) : Triple view P (Pure.pure a : Prog κ ε α) Q E :=
  fun _ hs => (wp_pure a).mpr (h _ hs)

theorem throw {e : ε} (h : ∀ v, P v → E v) : Triple view P (Prog.throw e : Prog κ ε α) Q E :=
  fun _ hs => (wp_throw e).mpr (h _ hs)

theorem conseq (h : Triple view P m Q E) (hP : ∀ v, P' v → P v) (hQ : ∀ a v, Q a v → Q' a v)
    (hE : ∀ v, E v → E' v) : Triple view P' m Q' E' :=
  fun s hs => wp_post (h s (hP _ hs)) (fun a _ => hQ a _) fun _ _ => hE _

theorem bind {f : α → Prog κ ε β} (h : Triple view P m Q E) (hf : ∀ a, Triple view (Q a) (f a) R E) :
    Triple view P (m >>= f) R E :=
  fun s hs => (wp_bind m f).mpr (wp_post (h s hs) (fun a t ht => hf a t ht) fun _ _ => id)

theorem map {f : α → β} (h : Triple view P m (fun a => R (f a)) E) : Triple view P (f <$> m) R E :=
  fun s hs => (wp_map f m).mpr (h s hs)

theorem tryCatch {handler : ε → Prog κ δ α} (h : Triple view P m Q E')
    (hh : ∀ e, Triple view E' (handler e) Q E) : Triple view P (Prog.tryCatch m handler) Q E :=
  fun s hs => (wp_tryCatch m handler).mpr (wp_post (h s hs) (fun _ _ => id) fun e t ht => hh e t ht)

theorem ite {c : Prop} [Decidable c] {n : Prog κ ε α} (hm : c → Triple view P m Q E)
    (hn : ¬c → Triple view P n Q E) : Triple view P (if c then m else n) Q E :=
  fun s hs => (wp_ite c m n).mpr ⟨fun hc => hm hc s hs, fun hc => hn hc s hs⟩

theorem assume {p : Prop} (h : p → Triple view P m Q E) : Triple view (fun v => p ∧ P v) m Q E :=
  fun s hs => h hs.1 s hs.2

theorem get {P : V → Prop} {E : V → Prop} {view : κ → V} :
    Triple view P (Prog.get : Prog κ ε κ) (fun _ => P) E :=
  fun _ hs => wp_get.mpr hs

theorem get_bind {f : κ → Prog κ ε β}
    (h : ∀ s, P (view s) → Triple view (fun v => v = view s) (f s) R E) :
    Triple view P (Prog.get >>= f) R E :=
  fun s hs => (wp_bind _ f).mpr (wp_get.mpr (h s hs s rfl))

theorem modify {f : κ → κ} {Q : Unit → V → Prop} (h : ∀ s, P (view s) → Q () (view (f s))) :
    Triple view P (Prog.modify f : Prog κ ε Unit) Q E :=
  fun s hs => (wp_modify f).mpr ⟨trivial, h s hs⟩

theorem of_leaves (h : Leaves view m) : Triple view P m (fun _ => P) P :=
  fun s hs => wp_mono (h.keeps s hs) (fun _ _ => trivial) (fun _ _ => id) fun _ _ => id

end Triple

/-! ### Triples that tell what was raised -/

/-- From every state that shows `P`, a normal end shows `Q` of its value and a raised one `E` of what
it raised. -/
def Ends (view : κ → V) (P : V → Prop) (m : Prog κ ε α) (Q : α → V → Prop) (E : ε → V → Prop) :
    Prop :=
  ∀ s, P (view s) → wp (fun _ => True) m (fun a t => Q a (view t)) (fun e t => E e (view t)) s

namespace Ends

variable {view : κ → V} {P P' : V → Prop} {m : Prog κ ε α} {Q Q' : α → V → Prop}
  {R : β → V → Prop} {E E' : ε → V → Prop} {D : δ → V → Prop}

theorem pure {a : α} (h : ∀ v, P v → Q a v) : Ends view P (Pure.pure a : Prog κ ε α) Q E :=
  fun _ hs => (wp_pure a).mpr (h _ hs)

theorem throw {e : ε} (h : ∀ v, P v → E e v) : Ends view P (Prog.throw e : Prog κ ε α) Q E :=
  fun _ hs => (wp_throw e).mpr (h _ hs)

theorem conseq (h : Ends view P m Q E) (hP : ∀ v, P' v → P v) (hQ : ∀ a v, Q a v → Q' a v)
    (hE : ∀ e v, E e v → E' e v) : Ends view P' m Q' E' :=
  fun s hs => wp_post (h s (hP _ hs)) (fun a _ => hQ a _) fun e _ => hE e _

theorem bind {f : α → Prog κ ε β} (h : Ends view P m Q E) (hf : ∀ a, Ends view (Q a) (f a) R E) :
    Ends view P (m >>= f) R E :=
  fun s hs => (wp_bind m f).mpr (wp_post (h s hs) (fun a t ht => hf a t ht) fun _ _ => id)

theorem map {f : α → β} (h : Ends view P m (fun a => R (f a)) E) : Ends view P (f <$> m) R E :=
  fun s hs => (wp_map f m).mpr (h s hs)

theorem tryCatch {handler : ε → Prog κ δ α} (h : Ends view P m Q E)
    (hh : ∀ e, Ends view (E e) (handler e) Q D) : Ends view P (Prog.tryCatch m handler) Q D :=
  fun s hs => (wp_tryCatch m handler).mpr (wp_post (h s hs) (fun _ _ => id) fun e t ht => hh e t ht)

theorem ite {c : Prop} [Decidable c] {n : Prog κ ε α} (hm : c → Ends view P m Q E)
    (hn : ¬c → Ends view P n Q E) : Ends view P (if c then m else n) Q E :=
  fun s hs => (wp_ite c m n).mpr ⟨fun hc => hm hc s hs, fun hc => hn hc s hs⟩

theorem assume {p : Prop} (h : p → Ends view P m Q E) : Ends view (fun v => p ∧ P v) m Q E :=
  fun s hs => h hs.1 s hs.2

theorem modify {f : κ → κ} {Q : Unit → V → Prop} (h : ∀ s, P (view s) → Q () (view (f s))) :
    Ends view P (Prog.modify f : Prog κ ε Unit) Q E :=
  fun s hs => (wp_modify f).mpr ⟨trivial, h s hs⟩

end Ends

end Prog

end VidbyteSdk.Lib
