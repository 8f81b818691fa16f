import VidbyteSdk.Lib.Utf8Search

/-!
# The first bytes of a text

Bytes of a text are cut off anywhere: what the decoder makes of the part of a character in front of the cut, and
the longest run of whole characters that fits in a number of bytes.
-/

namespace VidbyteSdk.Lib.Utf8

/-! ### Leaving out what cannot be read -/

/-- `first` without the replacement character. -/
def firstIgnoring (b : Byte) : Text × Decoder := ((first b).1.filter (· ≠ replacement), (first b).2)

def stepIgnoring : Decoder → Byte → Text × Decoder
  | .start, b => firstIgnoring b
  | .inside more value low high, b =>
    if low ≤ b.val ∧ b.val ≤ high then step (.inside more value low high) b else firstIgnoring b

def decodeIgnoringFrom : Decoder → List Byte → Text
  | _, [] => []
  | decoder, b :: rest => (stepIgnoring decoder b).1 ++ decodeIgnoringFrom (stepIgnoring decoder b).2 rest

/-- `data.decode("utf-8", errors="ignore")` -/
def decodeIgnoring (bytes : List Byte) : Text := decodeIgnoringFrom .start bytes

/-! ### Inside a character -/

/-- The bytes that end the character the decoder is inside. -/
inductive Completes (c : CodePoint) : Nat → Nat → Nat → Nat → List Byte → Prop
  | last {value low high : Nat} {b : Byte} : low ≤ b.val → b.val ≤ high → 0x40 * value + (b.val - 0x80) = c.val →
      Completes c 0 value low high [b]
  | more {more value low high : Nat} {b : Byte} {rest : List Byte} : low ≤ b.val → b.val ≤ high →
      Completes c more (0x40 * value + (b.val - 0x80)) 0x80 0xBF rest →
      Completes c (more + 1) value low high (b :: rest)

variable {c : CodePoint} {more value low high : Nat} {bytes rest : List Byte}

theorem completes_tail {n : Nat} (hlow : low ≤ 0x80 + n % 0x40) (hhigh : 0x80 + n % 0x40 ≤ high)
    (hc : 0x40 * value + n % 0x40 = c.val) : Completes c 0 value low high [tail n] := by
  refine .last ?_ ?_ ?_
  all_goals
    rw [val_tail]
    omega

theorem Completes.tail {n : Nat} (hlow : low ≤ 0x80 + n % 0x40) (hhigh : 0x80 + n % 0x40 ≤ high)
    (h : Completes c more (0x40 * value + n % 0x40) 0x80 0xBF rest) :
    Completes c (more + 1) value low high (Utf8.tail n :: rest) := by
  refine .more ?_ ?_ ?_
  · rwa [val_tail]
  · rwa [val_tail]
  · rwa [val_tail, Nat.add_sub_cancel_left]

theorem length_encodeChar_le (c : CodePoint) : (encodeChar c).length ≤ 4 := by
  unfold encodeChar
  repeat' split
  all_goals simp

theorem encodeChar_cases (hc : c.isSurrogate = false) :
    (∃ b : Byte, encodeChar c = [b] ∧ first b = ([c], .start) ∧ c ≠ replacement) ∨
      ∃ b more value low high rest, encodeChar c = b :: rest ∧ first b = ([], .inside more value low high) ∧
        Completes c more value low high rest := by
  have hlt := c.isLt
  simp only [CodePoint.isSurrogate, CodePoint.isHigh, CodePoint.isLow, Bool.or_eq_false_iff,
    Bool.and_eq_false_iff, decide_eq_false_iff_not] at hc
  unfold encodeChar
  split
  · next hone =>
    have hval : (Fin.ofNat 0x100 c.val).val = c.val := by
      simp only [Fin.ofNat]
      omega
    refine .inl ⟨_, rfl, ?_, ?_⟩
    · rw [first, hval, if_pos hone, Fin.ofNat_val_eq_self]
    · rintro rfl
      exact absurd hone (by decide)
  split
  · next htwo =>
    exact .inr ⟨_, _, _, _, _, _, rfl, first_two (by omega) htwo, completes_tail (by omega) (by omega) (by omega)⟩
  split
  · next hthree =>
    obtain ⟨low, high, hfirst, hlow, hhigh⟩ := first_three (n := c.val) (by omega) hthree (by omega)
    exact .inr ⟨_, _, _, _, _, _, rfl, hfirst, .tail hlow hhigh (completes_tail (by omega) (by omega) (by omega))⟩
  · obtain ⟨low, high, hfirst, hlow, hhigh⟩ := first_four (n := c.val) (by omega) hlt
    exact .inr ⟨_, _, _, _, _, _, rfl, hfirst,
      .tail hlow hhigh (.tail (by omega) (by omega) (completes_tail (by omega) (by omega) (by omega)))⟩

theorem Completes.decodeIgnoringFrom (h : Completes c more value low high bytes) (rest : List Byte) :
    decodeIgnoringFrom (.inside more value low high) (bytes ++ rest) = c :: decodeIgnoringFrom .start rest := by
  induction h with
  | last hlow hhigh hc =>
    simp only [List.singleton_append, Utf8.decodeIgnoringFrom, stepIgnoring, step, if_pos (And.intro hlow hhigh), hc]
    rw [Fin.ofNat_val_eq_self]
  | more hlow hhigh _ ih =>
    simp only [List.cons_append, Utf8.decodeIgnoringFrom, stepIgnoring, step, if_pos (And.intro hlow hhigh)]
    exact ih

theorem Completes.cut {part left : List Byte} (h : Completes c more value low high (part ++ left)) (hleft : left ≠ []) :
    decodeFrom (.inside more value low high) part = [replacement] ∧
      Utf8.decodeIgnoringFrom (.inside more value low high) part = [] := by
  induction part generalizing more value low high with
  | nil => exact ⟨rfl, rfl⟩
  | cons b part ih =>
    rw [List.cons_append] at h
    generalize htail : part ++ left = tail at h
    cases h with
    | last => exact absurd (List.append_eq_nil_iff.mp htail).2 hleft
    | more hlow hhigh hrest =>
      subst htail
      simp only [decodeFrom, Utf8.decodeIgnoringFrom, stepIgnoring, step, if_pos (And.intro hlow hhigh)]
      exact ih hrest

theorem decodeIgnoringFrom_encodeChar (hc : c.isSurrogate = false) (rest : List Byte) :
    decodeIgnoringFrom .start (encodeChar c ++ rest) = c :: decodeIgnoringFrom .start rest := by
  rcases encodeChar_cases hc with ⟨b, hchar, hfirst, hne⟩ | ⟨b, more, value, low, high, bytes, hchar, hfirst, h⟩
  · rw [hchar, List.singleton_append, decodeIgnoringFrom, stepIgnoring, firstIgnoring, hfirst,
      List.filter_cons_of_pos (by simpa using hne)]
    rfl
  · rw [hchar, List.cons_append, decodeIgnoringFrom, stepIgnoring, firstIgnoring, hfirst]
    exact h.decodeIgnoringFrom rest

theorem decode_part (hc : c.isSurrogate = false) {part left : List Byte} (h : encodeChar c = part ++ left)
    (hpart : part ≠ []) (hleft : left ≠ []) : decode part = [replacement] ∧ decodeIgnoring part = [] := by
  obtain ⟨first, part, rfl⟩ := List.exists_cons_of_ne_nil hpart
  rcases encodeChar_cases hc with ⟨b, hchar, -, -⟩ | ⟨b, more, value, low, high, bytes, hchar, hfirst, hcompletes⟩
  · rw [hchar, List.cons_append, List.cons.injEq] at h
    exact absurd (List.append_eq_nil_iff.mp h.2.symm).2 hleft
  · rw [hchar, List.cons_append, List.cons.injEq] at h
    obtain ⟨rfl, rfl⟩ := h
    have hcut := hcompletes.cut hleft
    constructor
    · rw [decode, decodeFrom, show step .start b = Utf8.first b from rfl, hfirst, hcut.1]
      rfl
    · rw [decodeIgnoring, decodeIgnoringFrom, stepIgnoring, firstIgnoring, hfirst, hcut.2]
      rfl

variable {t : Text}

theorem decode_encode_append (h : Text.isUtf8 t = true) (bytes : List Byte) :
    decode (encode t ++ bytes) = t ++ decode bytes := decodeFrom_encode h bytes

theorem decodeIgnoringFrom_encode (h : Text.isUtf8 t = true) (rest : List Byte) :
    decodeIgnoringFrom .start (encode t ++ rest) = t ++ decodeIgnoringFrom .start rest := by
  rw [Text.isUtf8_iff] at h
  induction t with
  | nil => rfl
  | cons c t ih =>
    rw [encode_cons, List.append_assoc, decodeIgnoringFrom_encodeChar (h c List.mem_cons_self),
      ih fun d hd => h d (List.mem_cons_of_mem _ hd), List.cons_append]

/-! ### The longest run of whole characters -/

/-- The whole characters at the start of a text that fit in a number of bytes. -/
def fit : ℕ → Text → Text
  | _, [] => []
  | limit, c :: t =>
    if (encodeChar c).length ≤ limit then c :: fit (limit - (encodeChar c).length) t else []

attribute [local grind =] fit

theorem fit_isPrefix (limit : ℕ) (t : Text) : fit limit t <+: t := by
  induction t generalizing limit with
  | nil => exact List.nil_prefix
  | cons c t ih =>
    rw [fit]
    split
    · exact List.cons_prefix_cons.mpr ⟨rfl, ih _⟩
    · exact List.nil_prefix

theorem length_encode_fit_le (limit : ℕ) (t : Text) : (encode (fit limit t)).length ≤ limit := by
  induction t generalizing limit with
  | nil => exact Nat.zero_le _
  | cons c t ih =>
    rw [fit]
    split
    · next hfits =>
      have hrest := ih (limit - (encodeChar c).length)
      rw [encode_cons, List.length_append]
      omega
    · exact Nat.zero_le _

variable {limit : ℕ}

theorem fit_append {s : Text} (h : (encode s).length ≤ limit) (r : Text) :
    fit limit (s ++ r) = s ++ fit (limit - (encode s).length) r := by
  induction s generalizing limit with
  | nil => rfl
  | cons c s ih =>
    rw [encode_cons, List.length_append] at h
    rw [List.cons_append, fit, if_pos (by omega), ih (by omega), encode_cons, List.length_append, Nat.sub_sub,
      List.cons_append]

/-- A run of whole characters that fits, and that no longer one is. -/
structure LongestFit (limit : ℕ) (t part : Text) : Prop where
  starts : part <+: t
  fits : (encode part).length ≤ limit
  longest : ∀ other, other <+: t → (encode other).length ≤ limit → other <+: part

theorem longestFit_fit (limit : ℕ) (t : Text) : LongestFit limit t (fit limit t) := by
  refine ⟨fit_isPrefix limit t, length_encode_fit_le limit t, ?_⟩
  rintro other ⟨r, rfl⟩ hfits
  rw [fit_append hfits]
  exact List.prefix_append _ _

theorem longestFit_iff {t part : Text} : LongestFit limit t part ↔ part = fit limit t := by
  constructor
  · intro h
    have hfit := longestFit_fit limit t
    have hle := hfit.longest part h.starts h.fits
    exact hle.eq_of_length_le (h.longest _ hfit.starts hfit.fits).length_le
  · rintro rfl
    exact longestFit_fit limit t

theorem fit_of_lt (h : limit < (encodeChar c).length) (r : Text) : fit limit (c :: r) = [] :=
  if_neg (Nat.not_le_of_lt h)

theorem fit_self (h : (encode t).length ≤ limit) : fit limit t = t := by
  have happend := fit_append h []
  rw [List.append_nil] at happend
  exact happend.trans (List.append_nil t)

/-- The first bytes of a text are those of whole characters, or of whole characters and a part of the next. -/
theorem take_encode (limit : ℕ) (t : Text) :
    (∃ r, t = fit limit t ++ r ∧ (encode t).take limit = encode (fit limit t)) ∨
      ∃ c r part left, t = fit limit t ++ c :: r ∧ encodeChar c = part ++ left ∧ part ≠ [] ∧ left ≠ [] ∧
        (encode t).take limit = encode (fit limit t) ++ part ∧ limit = (encode (fit limit t)).length + part.length := by
  rcases append_eq_encode (List.take_append_drop limit (encode t)) with
    ⟨s, r, rfl, htake, hdrop⟩ | ⟨s, c, r, part, left, rfl, hchar, hpart, hleft, htake, hdrop⟩
  · have hle : (encode s).length ≤ limit := by
      rw [← htake]
      exact List.length_take_le _ _
    cases r with
    | nil =>
      rw [List.append_nil, fit_self hle]
      refine .inl ⟨[], (List.append_nil s).symm, ?_⟩
      rw [List.take_of_length_le hle]
    | cons c r =>
      have hfull : (encode s).length = limit := by
        have hlong : limit ≤ (encode (s ++ c :: r)).length := by
          by_contra hshort
          rw [List.drop_of_length_le (by omega)] at hdrop
          exact encode_ne_nil (List.cons_ne_nil c r) hdrop.symm
        rw [← htake, List.length_take, Nat.min_eq_left hlong]
      have hnone : fit 0 (c :: r) = [] := by
        obtain ⟨lead, rest, hchar, -, -⟩ := exists_lead c
        refine fit_of_lt ?_ r
        rw [hchar]
        exact Nat.succ_pos _
      have hfit : fit limit (s ++ c :: r) = s := by
        rw [fit_append hle, hfull, Nat.sub_self, hnone, List.append_nil]
      rw [hfit]
      exact .inl ⟨c :: r, rfl, htake⟩
  · have hlimit : limit = (encode s).length + part.length := by
      have hlong : limit ≤ (encode (s ++ c :: r)).length := by
        by_contra hshort
        rw [List.drop_of_length_le (by omega)] at hdrop
        exact hleft (List.append_eq_nil_iff.mp hdrop.symm).1
      have hlength := congrArg List.length htake
      rwa [List.length_take, Nat.min_eq_left hlong, List.length_append] at hlength
    have hfit : fit limit (s ++ c :: r) = s := by
      have hshort : limit - (encode s).length < (encodeChar c).length := by
        have := List.length_pos_iff.mpr hleft
        rw [hchar, List.length_append]
        omega
      rw [fit_append (by omega), fit_of_lt hshort, List.append_nil]
    rw [hfit]
    exact .inr ⟨c, r, part, left, rfl, hchar, hpart, hleft, htake, hlimit⟩

theorem isUtf8_fit (h : Text.isUtf8 t = true) (limit : ℕ) : Text.isUtf8 (fit limit t) = true :=
  Text.isUtf8_of_subset (fit_isPrefix limit t).subset h

theorem decodeIgnoring_take (h : Text.isUtf8 t = true) (limit : ℕ) :
    decodeIgnoring ((encode t).take limit) = fit limit t := by
  have hfit := isUtf8_fit h limit
  rcases take_encode limit t with ⟨r, -, htake⟩ | ⟨c, r, part, left, ht, hchar, hpart, hleft, htake, -⟩
  · have hall := decodeIgnoringFrom_encode hfit []
    rw [List.append_nil] at hall
    rw [htake, decodeIgnoring, hall]
    exact List.append_nil _
  · have hc : c.isSurrogate = false :=
      (Text.isUtf8_iff.mp h) c (ht ▸ List.mem_append_right _ List.mem_cons_self)
    have hnone : decodeIgnoringFrom .start part = [] := (decode_part hc hchar hpart hleft).2
    rw [htake, decodeIgnoring, decodeIgnoringFrom_encode hfit, hnone, List.append_nil]

end VidbyteSdk.Lib.Utf8
