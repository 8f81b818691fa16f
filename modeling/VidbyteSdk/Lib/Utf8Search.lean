import VidbyteSdk.Lib.Occurrences
import VidbyteSdk.Lib.Utf8

/-!
# Searching the bytes of a text

A byte that goes on with a character starts none. So the bytes of one text are found in those of another
where the text itself is (`occurrences_encode`), and bytes are cut around them only between characters
(`cut_around`).
-/

namespace VidbyteSdk.Lib

theorem Text.isUtf8_of_subset {s t : Text} (h : s ⊆ t) (ht : isUtf8 t = true) : isUtf8 s = true := by
  rw [isUtf8_iff] at *
  exact fun c hc => ht c (h hc)

namespace Utf8

def IsTail (b : Byte) : Prop := 0x80 ≤ b.val ∧ b.val ≤ 0xBF

@[simp] theorem encode_nil : encode [] = [] := rfl

@[simp] theorem encode_cons (c : CodePoint) (t : Text) : encode (c :: t) = encodeChar c ++ encode t := rfl

@[simp] theorem encode_append (s t : Text) : encode (s ++ t) = encode s ++ encode t :=
  List.flatMap_append

theorem isTail_tail (n : Nat) : IsTail (tail n) := by
  rw [IsTail, val_tail]
  omega

theorem exists_lead (c : CodePoint) :
    ∃ lead rest, encodeChar c = lead :: rest ∧ ¬ IsTail lead ∧ ∀ b ∈ rest, IsTail b := by
  have hlt := c.isLt
  unfold encodeChar
  split
  · refine ⟨_, [], rfl, ?_, nofun⟩
    simp only [IsTail, Fin.ofNat]
    omega
  split
  · refine ⟨_, [_], rfl, ?_, by simp [isTail_tail]⟩
    simp only [IsTail, Fin.ofNat]
    omega
  split
  · refine ⟨_, [_, _], rfl, ?_, by simp [isTail_tail]⟩
    simp only [IsTail, Fin.ofNat]
    omega
  · refine ⟨_, [_, _, _], rfl, ?_, by simp [isTail_tail]⟩
    simp only [IsTail, Fin.ofNat]
    omega

theorem encode_ne_nil {t : Text} (h : t ≠ []) : encode t ≠ [] := by
  cases t with
  | nil => exact absurd rfl h
  | cons c t =>
    obtain ⟨lead, rest, hchar, -, -⟩ := exists_lead c
    rw [encode_cons, hchar]
    exact List.cons_ne_nil _ _

variable {a b : List Byte}

theorem isTail_of_append {c : CodePoint} (h : encodeChar c = a ++ b) (ha : a ≠ []) :
    ∀ x ∈ b, IsTail x := by
  obtain ⟨lead, rest, hchar, -, hrest⟩ := exists_lead c
  cases a with
  | nil => exact absurd rfl ha
  | cons x a =>
    rw [hchar, List.cons_append, List.cons.injEq] at h
    intro y hy
    exact hrest y (h.2 ▸ List.mem_append_right a hy)

/-! ### Cutting the bytes of a text -/

theorem append_eq_encode {t : Text} {p q : List Byte} (h : p ++ q = encode t) :
    (∃ s r, t = s ++ r ∧ p = encode s ∧ q = encode r) ∨
      ∃ s c r a b, t = s ++ c :: r ∧ encodeChar c = a ++ b ∧ a ≠ [] ∧ b ≠ [] ∧
        p = encode s ++ a ∧ q = b ++ encode r := by
  induction t generalizing p with
  | nil =>
    obtain ⟨rfl, rfl⟩ := List.append_eq_nil_iff.mp h
    exact .inl ⟨[], [], rfl, rfl, rfl⟩
  | cons c t ih =>
    rw [encode_cons] at h
    rcases List.append_eq_append_iff.mp h with ⟨b, hchar, hq⟩ | ⟨p', hp, hrest⟩
    · by_cases hp : p = []
      · refine .inl ⟨[], c :: t, rfl, hp, ?_⟩
        rw [hq, encode_cons, hchar, hp, List.nil_append]
      by_cases hb : b = []
      · refine .inl ⟨[c], t, rfl, ?_, ?_⟩
        · rw [encode_cons, hchar, hb, List.append_nil, encode_nil, List.append_nil]
        · rw [hq, hb, List.nil_append]
      · exact .inr ⟨[], c, t, p, b, rfl, hchar, hp, hb, rfl, hq⟩
    · rcases ih hrest.symm with ⟨s, r, ht, hp', hq⟩ | ⟨s, d, r, a, b, ht, hchar, ha, hb, hp', hq⟩
      · refine .inl ⟨c :: s, r, ?_, ?_, hq⟩
        · rw [ht, List.cons_append]
        · rw [hp, hp', encode_cons]
      · refine .inr ⟨c :: s, d, r, a, b, ?_, hchar, ha, hb, ?_, hq⟩
        · rw [ht, List.cons_append]
        · rw [hp, hp', encode_cons, List.append_assoc]

variable {search t : Text}

theorem encode_append_eq {q : List Byte} (hsearch : Text.isUtf8 search = true)
    (ht : Text.isUtf8 t = true) (h : encode search ++ q = encode t) :
    ∃ r, t = search ++ r ∧ q = encode r := by
  rw [Text.isUtf8_iff] at hsearch ht
  induction search generalizing t with
  | nil => exact ⟨t, rfl, h⟩
  | cons d search ih =>
    cases t with
    | nil => exact absurd (List.append_eq_nil_iff.mp h).1 (encode_ne_nil (List.cons_ne_nil d search))
    | cons c t =>
      rw [encode_cons, encode_cons, List.append_assoc] at h
      have hread := congrArg (decodeFrom .start) h
      rw [decodeFrom_encodeChar (hsearch d List.mem_cons_self),
        decodeFrom_encodeChar (ht c List.mem_cons_self)] at hread
      obtain rfl := (List.cons.inj hread).1
      obtain ⟨r, hr, hq⟩ := ih (fun e he => hsearch e (List.mem_cons_of_mem _ he))
        (fun e he => ht e (List.mem_cons_of_mem _ he)) (List.append_cancel_left h)
      exact ⟨r, by rw [hr, List.cons_append], hq⟩

theorem encode_prefix_iff (hsearch : Text.isUtf8 search = true)
    (ht : Text.isUtf8 t = true) : encode search <+: encode t ↔ search <+: t := by
  constructor
  · rintro ⟨q, hq⟩
    obtain ⟨r, hr, -⟩ := encode_append_eq hsearch ht hq
    exact ⟨r, hr.symm⟩
  · rintro ⟨r, rfl⟩
    exact ⟨encode r, (encode_append search r).symm⟩

theorem cut_around (hne : search ≠ []) (hsearch : Text.isUtf8 search = true)
    (ht : Text.isUtf8 t = true) {p q : List Byte} (h : p ++ encode search ++ q = encode t) :
    ∃ s r, t = s ++ search ++ r ∧ p = encode s ∧ q = encode r := by
  rw [List.append_assoc] at h
  rcases append_eq_encode h with ⟨s, r, hcut, hp, hrest⟩ | ⟨s, c, r, a, b, -, hchar, ha, hb, -, hrest⟩
  · have hr : Text.isUtf8 r = true := by
      rw [Text.isUtf8_iff] at ht ⊢
      intro c hc
      exact ht c (hcut ▸ List.mem_append_right s hc)
    obtain ⟨r', hr', hq⟩ := encode_append_eq hsearch hr hrest
    exact ⟨s, r', by rw [hcut, hr', List.append_assoc], hp, hq⟩
  · -- the text starts with a byte that starts a character, what is left of one does not
    obtain ⟨d, search, rfl⟩ := List.exists_cons_of_ne_nil hne
    obtain ⟨lead, rest, hlead, hstart, -⟩ := exists_lead d
    obtain ⟨x, b, rfl⟩ := List.exists_cons_of_ne_nil hb
    rw [encode_cons, hlead, List.cons_append, List.cons_append, List.cons_append, List.cons.injEq]
      at hrest
    exact absurd (isTail_of_append hchar ha x List.mem_cons_self) (hrest.1 ▸ hstart)

/-! ### Searching and replacing -/

theorem exists_lead_notMem (d c : CodePoint) :
    ∃ lead rest first others, encodeChar d = lead :: rest ∧ encodeChar c = first :: others ∧
      lead ∉ others := by
  obtain ⟨lead, rest, hlead, hstart, -⟩ := exists_lead d
  obtain ⟨first, others, hfirst, -, hothers⟩ := exists_lead c
  exact ⟨lead, rest, first, others, hlead, hfirst, fun hmem => hstart (hothers lead hmem)⟩

theorem isPrefixOf_encode (hsearch : Text.isUtf8 search = true)
    (ht : Text.isUtf8 t = true) : (encode search).isPrefixOf (encode t) = search.isPrefixOf t := by
  rw [Bool.eq_iff_iff, List.isPrefixOf_iff_prefix, List.isPrefixOf_iff_prefix,
    encode_prefix_iff hsearch ht]

theorem occurrences_encode (hne : search ≠ []) (hsearch : Text.isUtf8 search = true)
    (ht : Text.isUtf8 t = true) : occurrences (encode search) (encode t) = occurrences search t := by
  obtain ⟨d, search, rfl⟩ := List.exists_cons_of_ne_nil hne
  induction t with
  | nil => rfl
  | cons c t ih =>
    have hrest := Text.isUtf8_of_subset (List.subset_cons_self c t) ht
    have hstarts := isPrefixOf_encode hsearch ht
    obtain ⟨lead, rest, first, others, hd, hc, hnotMem⟩ := exists_lead_notMem d c
    rw [occurrences, ← ih hrest, ← hstarts, encode_cons, encode_cons, hd, hc, List.cons_append,
      List.cons_append, occurrences, occurrences_append_of_notMem hnotMem]

theorem substituteFirst_encode (hne : search ≠ [])
    (hsearch : Text.isUtf8 search = true) (ht : Text.isUtf8 t = true) (new : Text) :
    substituteFirst (encode search) (encode new) (encode t) = encode (substituteFirst search new t) := by
  obtain ⟨d, search, rfl⟩ := List.exists_cons_of_ne_nil hne
  induction t with
  | nil => rfl
  | cons c t ih =>
    have hrest := Text.isUtf8_of_subset (List.subset_cons_self c t) ht
    by_cases hprefix : (d :: search).isPrefixOf (c :: t) = true
    · obtain ⟨r, hr⟩ := List.isPrefixOf_iff_prefix.mp hprefix
      rw [← hr, encode_append, substituteFirst_append (encode_ne_nil hne), substituteFirst_append hne,
        encode_append]
    · have hstarts := isPrefixOf_encode hsearch ht
      obtain ⟨lead, rest, first, others, hd, hc, hnotMem⟩ := exists_lead_notMem d c
      rw [Bool.eq_false_iff.mpr hprefix] at hstarts
      have hthere : substituteFirst (encode (d :: search)) (encode new) (encode (c :: t))
          = first :: substituteFirst (encode (d :: search)) (encode new) (others ++ encode t) := by
        rw [encode_cons c t, hc] at hstarts ⊢
        rw [List.cons_append] at hstarts ⊢
        rw [substituteFirst, if_neg (Bool.eq_false_iff.mp hstarts)]
      rw [substituteFirst, if_neg hprefix, hthere, encode_cons c, ← ih hrest, hc, encode_cons d, hd,
        List.cons_append, substituteFirst_append_of_notMem hnotMem, List.cons_append]

/-! ### Reading a character that is cut in two -/

theorem decodeFrom_tails {bs : List Byte} (h : ∀ b ∈ bs, IsTail b) (rest : List Byte) :
    decodeFrom .start (bs ++ rest)
      = List.replicate bs.length replacement ++ decodeFrom .start rest := by
  induction bs with
  | nil => rfl
  | cons b bs ih =>
    obtain ⟨hlow, hhigh⟩ := h b List.mem_cons_self
    have hfirst : first b = ([replacement], .start) := by
      unfold first
      repeat rw [if_neg (by omega)]
    have hstep : step .start b = first b := rfl
    rw [List.cons_append, decodeFrom, hstep, hfirst, ih fun x hx => h x (List.mem_cons_of_mem b hx)]
    rfl

theorem first_bounds {b : Byte} {more value low high : Nat}
    (h : (first b).2 = .inside more value low high) : 0x80 ≤ low ∧ high ≤ 0xBF := by
  unfold first at h
  repeat' split at h
  all_goals
    cases h
    try exact ⟨by omega, by omega⟩

theorem decodeFrom_inside {more value low high : Nat} (hlow : 0x80 ≤ low) (hhigh : high ≤ 0xBF)
    {x : Byte} (hx : ¬ IsTail x) (rest : List Byte) :
    decodeFrom (.inside more value low high) (x :: rest)
      = replacement :: decodeFrom .start (x :: rest) := by
  have hout : ¬ (low ≤ x.val ∧ x.val ≤ high) := fun h => hx ⟨hlow.trans h.1, h.2.trans hhigh⟩
  simp only [decodeFrom, step, if_neg hout, List.cons_append]

theorem decodeFrom_broken {c : CodePoint} (hc : c.isSurrogate = false)
    (h : encodeChar c = a ++ b) (ha : a ≠ []) (hb : b ≠ []) {x : Byte} (hx : ¬ IsTail x)
    (rest : List Byte) :
    decodeFrom .start (a ++ x :: rest) = replacement :: decodeFrom .start (x :: rest) := by
  have hlt := c.isLt
  simp only [CodePoint.isSurrogate, CodePoint.isHigh, CodePoint.isLow, Bool.or_eq_false_iff,
    Bool.and_eq_false_iff, decide_eq_false_iff_not] at hc
  obtain ⟨a₁, a, rfl⟩ := List.exists_cons_of_ne_nil ha
  obtain ⟨b₁, b, rfl⟩ := List.exists_cons_of_ne_nil hb
  unfold encodeChar at h
  split at h
  · -- a character of one byte is not cut
    cases a <;> cases h
  split at h
  · next hone htwo =>
    rw [List.cons_append, List.cons.injEq] at h
    obtain ⟨rfl, h⟩ := h
    cases a with
    | cons a₂ a => cases a <;> cases h
    | nil =>
      rw [List.singleton_append, decodeFrom, show step .start _ = first _ from rfl,
        first_two (by omega) htwo]
      exact decodeFrom_inside (Nat.le_refl _) (Nat.le_refl _) hx rest
  split at h
  · next htwo hthree =>
    rw [List.cons_append, List.cons.injEq] at h
    obtain ⟨rfl, h⟩ := h
    obtain ⟨low, high, hfirst, hlow, hhigh⟩ := first_three (n := c.val) (by omega) hthree (by omega)
    have hbounds := first_bounds (congrArg Prod.snd hfirst)
    cases a with
    | nil =>
      rw [List.singleton_append, decodeFrom, show step .start _ = first _ from rfl, hfirst]
      exact decodeFrom_inside hbounds.1 hbounds.2 hx rest
    | cons a₂ a =>
      rw [List.cons_append, List.cons.injEq] at h
      obtain ⟨rfl, h⟩ := h
      cases a with
      | cons a₃ a => cases a <;> cases h
      | nil =>
        simp only [List.cons_append, List.nil_append, decodeFrom]
        rw [show step .start _ = first _ from rfl, hfirst, step_inside_succ hlow hhigh]
        exact decodeFrom_inside (Nat.le_refl _) (Nat.le_refl _) hx rest
  · next hthree =>
    rw [List.cons_append, List.cons.injEq] at h
    obtain ⟨rfl, h⟩ := h
    obtain ⟨low, high, hfirst, hlow, hhigh⟩ := first_four (n := c.val) (by omega) hlt
    have hbounds := first_bounds (congrArg Prod.snd hfirst)
    cases a with
    | nil =>
      rw [List.singleton_append, decodeFrom, show step .start _ = first _ from rfl, hfirst]
      exact decodeFrom_inside hbounds.1 hbounds.2 hx rest
    | cons a₂ a =>
      rw [List.cons_append, List.cons.injEq] at h
      obtain ⟨rfl, h⟩ := h
      cases a with
      | nil =>
        simp only [List.cons_append, List.nil_append, decodeFrom]
        rw [show step .start _ = first _ from rfl, hfirst, step_inside_succ hlow hhigh]
        exact decodeFrom_inside (Nat.le_refl _) (Nat.le_refl _) hx rest
      | cons a₃ a =>
        rw [List.cons_append, List.cons.injEq] at h
        obtain ⟨rfl, h⟩ := h
        cases a with
        | cons a₄ a => cases a <;> cases h
        | nil =>
          simp only [List.cons_append, List.nil_append, decodeFrom]
          rw [show step .start _ = first _ from rfl, hfirst, step_inside_succ hlow hhigh,
            step_inside_succ (by omega) (by omega)]
          exact decodeFrom_inside (Nat.le_refl _) (Nat.le_refl _) hx rest

theorem decodeFrom_encode {t : Text} (h : Text.isUtf8 t = true) (rest : List Byte) :
    decodeFrom .start (encode t ++ rest) = t ++ decodeFrom .start rest := by
  rw [Text.isUtf8_iff] at h
  induction t with
  | nil => rfl
  | cons c t ih =>
    rw [encode_cons, List.append_assoc, decodeFrom_encodeChar (h c List.mem_cons_self),
      ih fun d hd => h d (List.mem_cons_of_mem _ hd), List.cons_append]

theorem decode_broken {c : CodePoint} (hc : c.isSurrogate = false)
    (h : encodeChar c = a ++ b) (ha : a ≠ []) (hb : b ≠ []) {s search r : Text} (hne : search ≠ [])
    (hs : Text.isUtf8 s = true) (hsearch : Text.isUtf8 search = true) (hr : Text.isUtf8 r = true) :
    decode (encode s ++ a ++ encode search ++ (b ++ encode r))
      = s ++ replacement :: (search ++ (List.replicate b.length replacement ++ r)) := by
  obtain ⟨lead, rest, hlead, hnotTail⟩ : ∃ lead rest, encode search = lead :: rest ∧ ¬ IsTail lead := by
    obtain ⟨d, search, rfl⟩ := List.exists_cons_of_ne_nil hne
    obtain ⟨lead, rest, hlead, hstart, -⟩ := exists_lead d
    exact ⟨lead, rest ++ encode search, by rw [encode_cons, hlead, List.cons_append], hstart⟩
  have hbroken := decodeFrom_broken hc h ha hb hnotTail (rest ++ (b ++ encode r))
  rw [← List.cons_append, ← hlead, decodeFrom_encode hsearch,
    decodeFrom_tails (isTail_of_append h ha)] at hbroken
  have hread : decodeFrom .start (encode r) = r := decode_encode hr
  rw [hread] at hbroken
  rw [decode, List.append_assoc, List.append_assoc, decodeFrom_encode hs, hbroken]

end Utf8

end VidbyteSdk.Lib
