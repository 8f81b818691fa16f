import VidbyteSdk.Lib.Words

/-!
# UTF-8

`text.encode("utf-8")` and `data.decode("utf-8", errors="replace")` on texts of code points. The
decoder reads one byte at a time and writes one replacement character for each longest run of bytes
that starts a character and does not finish it.
-/

namespace VidbyteSdk.Lib

abbrev Byte := Fin 0x100

instance Byte.neZero : NeZero 0x100 := ⟨Nat.succ_ne_zero _⟩

namespace Utf8

/-- A byte after the first of a character, with the low six bits of a number. -/
def tail (n : Nat) : Byte := Fin.ofNat _ (0x80 + n % 0x40)

def encodeChar (c : CodePoint) : List Byte :=
  if c.val < 0x80 then [Fin.ofNat _ c.val]
  else if c.val < 0x800 then [Fin.ofNat _ (0xC0 + c.val / 0x40), tail c.val]
  else if c.val < 0x10000 then
    [Fin.ofNat _ (0xE0 + c.val / 0x1000), tail (c.val / 0x40), tail c.val]
  else
    [Fin.ofNat _ (0xF0 + c.val / 0x40000), tail (c.val / 0x1000), tail (c.val / 0x40), tail c.val]

def encode (t : Text) : List Byte := t.flatMap encodeChar

abbrev replacement : CodePoint := 0xFFFD

/-- Where the decoder stands: between characters, or inside one, with the bytes it needs after the
next one, the bits read so far, and the least and the greatest byte the next one may be. -/
inductive Decoder
  | start
  | inside (more value low high : Nat)
  deriving DecidableEq

def first (b : Byte) : Text × Decoder :=
  if b.val < 0x80 then ([Fin.ofNat _ b.val], .start)
  else if 0xC2 ≤ b.val ∧ b.val ≤ 0xDF then ([], .inside 0 (b.val - 0xC0) 0x80 0xBF)
  else if b.val = 0xE0 then ([], .inside 1 0 0xA0 0xBF)
  else if b.val = 0xED then ([], .inside 1 0xD 0x80 0x9F)
  else if 0xE1 ≤ b.val ∧ b.val ≤ 0xEF then ([], .inside 1 (b.val - 0xE0) 0x80 0xBF)
  else if b.val = 0xF0 then ([], .inside 2 0 0x90 0xBF)
  else if 0xF1 ≤ b.val ∧ b.val ≤ 0xF3 then ([], .inside 2 (b.val - 0xF0) 0x80 0xBF)
  else if b.val = 0xF4 then ([], .inside 2 4 0x80 0x8F)
  else ([replacement], .start)

def step : Decoder → Byte → Text × Decoder
  | .start, b => first b
  | .inside more value low high, b =>
    if low ≤ b.val ∧ b.val ≤ high then
      match more with
      | 0 => ([Fin.ofNat _ (0x40 * value + (b.val - 0x80))], .start)
      | more + 1 => ([], .inside more (0x40 * value + (b.val - 0x80)) 0x80 0xBF)
    else (replacement :: (first b).1, (first b).2)

def decodeFrom : Decoder → List Byte → Text
  | .start, [] => []
  | .inside .., [] => [replacement]
  | decoder, b :: rest => (step decoder b).1 ++ decodeFrom (step decoder b).2 rest

def decode (bytes : List Byte) : Text := decodeFrom .start bytes

/-! ### Reading what was written -/

theorem val_tail (n : Nat) : (tail n).val = 0x80 + n % 0x40 := by
  simp only [tail, Fin.ofNat]
  omega

theorem step_inside_succ {more value low high n : Nat} (hlow : low ≤ 0x80 + n % 0x40)
    (hhigh : 0x80 + n % 0x40 ≤ high) :
    step (.inside (more + 1) value low high) (tail n)
      = ([], .inside more (0x40 * value + n % 0x40) 0x80 0xBF) := by
  simp only [step, val_tail, if_pos (And.intro hlow hhigh), Nat.add_sub_cancel_left]

theorem step_inside_zero {value low high n : Nat} {c : CodePoint} (hlow : low ≤ 0x80 + n % 0x40)
    (hhigh : 0x80 + n % 0x40 ≤ high) (hc : 0x40 * value + n % 0x40 = c.val) :
    step (.inside 0 value low high) (tail n) = ([c], .start) := by
  simp only [step, val_tail, if_pos (And.intro hlow hhigh), Nat.add_sub_cancel_left, hc]
  rw [Fin.ofNat_val_eq_self]

theorem first_two {n : Nat} (hle : 0x80 ≤ n) (hlt : n < 0x800) :
    first (Fin.ofNat _ (0xC0 + n / 0x40)) = ([], .inside 0 (n / 0x40) 0x80 0xBF) := by
  have hval : (Fin.ofNat 0x100 (0xC0 + n / 0x40)).val = 0xC0 + n / 0x40 := by
    simp only [Fin.ofNat]
    omega
  rw [first, hval, if_neg (by omega), if_pos (by omega), Nat.add_sub_cancel_left]

theorem first_three {n : Nat} (hle : 0x800 ≤ n) (hlt : n < 0x10000)
    (hsurrogate : ¬ (0xD800 ≤ n ∧ n ≤ 0xDFFF)) :
    ∃ low high, first (Fin.ofNat _ (0xE0 + n / 0x1000)) = ([], .inside 1 (n / 0x1000) low high) ∧
      low ≤ 0x80 + n / 0x40 % 0x40 ∧ 0x80 + n / 0x40 % 0x40 ≤ high := by
  have hval : (Fin.ofNat 0x100 (0xE0 + n / 0x1000)).val = 0xE0 + n / 0x1000 := by
    simp only [Fin.ofNat]
    omega
  rw [first, hval, if_neg (by omega), if_neg (by omega)]
  by_cases hzero : n / 0x1000 = 0
  · refine ⟨0xA0, 0xBF, ?_, by omega, by omega⟩
    rw [if_pos (by omega), hzero]
  · rw [if_neg (by omega)]
    by_cases hthirteen : n / 0x1000 = 0xD
    · refine ⟨0x80, 0x9F, ?_, by omega, by omega⟩
      rw [if_pos (by omega), hthirteen]
    · refine ⟨0x80, 0xBF, ?_, by omega, by omega⟩
      rw [if_neg (by omega), if_pos (by omega), Nat.add_sub_cancel_left]

/-- After the first of four bytes, the bounds on the second leave out the short forms and what is
above the last code point. -/
theorem first_four {n : Nat} (hle : 0x10000 ≤ n) (hlt : n < 0x110000) :
    ∃ low high, first (Fin.ofNat _ (0xF0 + n / 0x40000)) = ([], .inside 2 (n / 0x40000) low high) ∧
      low ≤ 0x80 + n / 0x1000 % 0x40 ∧ 0x80 + n / 0x1000 % 0x40 ≤ high := by
  have hval : (Fin.ofNat 0x100 (0xF0 + n / 0x40000)).val = 0xF0 + n / 0x40000 := by
    simp only [Fin.ofNat]
    omega
  rw [first, hval, if_neg (by omega), if_neg (by omega), if_neg (by omega), if_neg (by omega),
    if_neg (by omega)]
  by_cases hzero : n / 0x40000 = 0
  · refine ⟨0x90, 0xBF, ?_, by omega, by omega⟩
    rw [if_pos (by omega), hzero]
  · rw [if_neg (by omega)]
    by_cases hfour : n / 0x40000 = 4
    · refine ⟨0x80, 0x8F, ?_, by omega, by omega⟩
      rw [if_neg (by omega), if_pos (by omega), hfour]
    · refine ⟨0x80, 0xBF, ?_, by omega, by omega⟩
      rw [if_pos (by omega), Nat.add_sub_cancel_left]

theorem decodeFrom_encodeChar {c : CodePoint} (hc : c.isSurrogate = false) (rest : List Byte) :
    decodeFrom .start (encodeChar c ++ rest) = c :: decodeFrom .start rest := by
  have hlt := c.isLt
  simp only [CodePoint.isSurrogate, CodePoint.isHigh, CodePoint.isLow, Bool.or_eq_false_iff,
    Bool.and_eq_false_iff, decide_eq_false_iff_not] at hc
  unfold encodeChar
  split
  · next hone =>
    have hval : (Fin.ofNat 0x100 c.val).val = c.val := by
      simp only [Fin.ofNat]
      omega
    simp only [List.singleton_append, decodeFrom, step, first, hval, if_pos hone]
    rw [Fin.ofNat_val_eq_self]
  split
  · next hone htwo =>
    simp only [List.cons_append, List.nil_append, decodeFrom]
    rw [show step .start _ = first _ from rfl, first_two (by omega) htwo,
      step_inside_zero (c := c) (by omega) (by omega) (by omega)]
    rfl
  split
  · next htwo hthree =>
    obtain ⟨low, high, hfirst, hlow, hhigh⟩ := first_three (n := c.val) (by omega) hthree (by omega)
    simp only [List.cons_append, List.nil_append, decodeFrom]
    rw [show step .start _ = first _ from rfl, hfirst, step_inside_succ hlow hhigh,
      step_inside_zero (c := c) (by omega) (by omega) (by omega)]
    rfl
  · next hthree =>
    obtain ⟨low, high, hfirst, hlow, hhigh⟩ := first_four (n := c.val) (by omega) hlt
    simp only [List.cons_append, List.nil_append, decodeFrom]
    rw [show step .start _ = first _ from rfl, hfirst, step_inside_succ hlow hhigh,
      step_inside_succ (by omega) (by omega), step_inside_zero (c := c) (by omega) (by omega) (by omega)]
    rfl

theorem decode_encode {t : Text} (h : Text.isUtf8 t = true) : decode (encode t) = t := by
  rw [Text.isUtf8_iff] at h
  induction t with
  | nil => rfl
  | cons c t ih =>
    have hrest : decodeFrom .start (encode t) = t := ih fun d hd => h d (List.mem_cons_of_mem _ hd)
    rw [decode, encode, List.flatMap_cons, decodeFrom_encodeChar (h c List.mem_cons_self)]
    exact congrArg _ hrest

/-! ### What is read can be written -/

/-- Every way to end the character the decoder is inside gives one that is no surrogate. -/
def EndsWell : Nat → Nat → Nat → Nat → Prop
  | 0, value, low, high => ∀ b, low ≤ b → b ≤ high → 0x40 * value + (b - 0x80) < 0x110000 ∧
      ¬ (0xD800 ≤ 0x40 * value + (b - 0x80) ∧ 0x40 * value + (b - 0x80) ≤ 0xDFFF)
  | more + 1, value, low, high => ∀ b, low ≤ b → b ≤ high →
      EndsWell more (0x40 * value + (b - 0x80)) 0x80 0xBF

def Decoder.EndsWell : Decoder → Prop
  | .start => True
  | .inside more value low high => Utf8.EndsWell more value low high

theorem isUtf8_singleton {n : Nat} (hlt : n < 0x110000) (h : ¬ (0xD800 ≤ n ∧ n ≤ 0xDFFF)) :
    Text.isUtf8 [Fin.ofNat _ n] = true := by
  rw [Text.isUtf8_iff]
  simp only [List.mem_singleton, forall_eq, CodePoint.isSurrogate, CodePoint.isHigh,
    CodePoint.isLow, Bool.or_eq_false_iff, Bool.and_eq_false_iff, decide_eq_false_iff_not,
    Fin.ofNat, Nat.mod_eq_of_lt hlt]
  omega

theorem first_endsWell (b : Byte) :
    Text.isUtf8 (first b).1 = true ∧ (first b).2.EndsWell := by
  have hb := b.isLt
  have hreplacement : Text.isUtf8 [replacement] = true := by decide
  unfold first
  split
  · exact ⟨isUtf8_singleton (by omega) (by omega), trivial⟩
  repeat' split
  case isFalse.isFalse.isFalse.isFalse.isFalse.isFalse.isFalse.isFalse =>
    exact ⟨hreplacement, trivial⟩
  all_goals
    refine ⟨rfl, ?_⟩
    simp only [Decoder.EndsWell, EndsWell]
    omega

theorem step_endsWell {decoder : Decoder} (h : decoder.EndsWell) (b : Byte) :
    Text.isUtf8 (step decoder b).1 = true ∧ (step decoder b).2.EndsWell := by
  cases decoder with
  | start => exact first_endsWell b
  | inside more value low high =>
    have hfirst := first_endsWell b
    by_cases hb : low ≤ b.val ∧ b.val ≤ high
    · cases more with
      | zero =>
        obtain ⟨hlt, hne⟩ := h b.val hb.1 hb.2
        simp only [step, if_pos hb]
        exact ⟨isUtf8_singleton hlt hne, trivial⟩
      | succ more =>
        simp only [step, if_pos hb]
        exact ⟨rfl, h b.val hb.1 hb.2⟩
    · have hreplacement : Text.isUtf8 [replacement] = true := by decide
      simp only [step, if_neg hb]
      exact ⟨Text.isUtf8_append hreplacement hfirst.1, hfirst.2⟩

theorem isUtf8_decodeFrom {decoder : Decoder} (h : decoder.EndsWell) (bytes : List Byte) :
    Text.isUtf8 (decodeFrom decoder bytes) = true := by
  induction bytes generalizing decoder with
  | nil =>
    cases decoder with
    | start => rfl
    | inside => exact (by decide : Text.isUtf8 [replacement] = true)
  | cons b rest ih =>
    obtain ⟨hwritten, hnext⟩ := step_endsWell h b
    rw [decodeFrom]
    exact Text.isUtf8_append hwritten (ih hnext)

theorem isUtf8_decode (bytes : List Byte) : Text.isUtf8 (decode bytes) = true :=
  by
  have hstart : Decoder.EndsWell .start := trivial
  exact isUtf8_decodeFrom hstart bytes

end Utf8

end VidbyteSdk.Lib
