import VidbyteSdk.Lib.Json
import Mathlib.Data.List.Lex
import Mathlib.Order.Fin.Basic

/-!
# The text order of padded numbers

`zfill width n` is a number in decimal digits, with zeros in front up to a width. Among numbers of one width the text
order is the number order. A number that is too long for the width is compared by its first digits.
-/

namespace VidbyteSdk.Lib

open Json (digitsOf)

def digit (n : ℕ) : CodePoint := Fin.ofNat _ (0x30 + n % 10)

/-- The last `k` digits of a number. -/
def lastDigits : ℕ → ℕ → Text
  | 0, _ => []
  | k + 1, n => lastDigits k (n / 10) ++ [digit n]

def filledWidth (least n : ℕ) : ℕ := max least (digitsOf n).length

/-- `f"{n:0{least}d}"` -/
def zfill (least n : ℕ) : Text := List.replicate (least - (digitsOf n).length) 0x30 ++ digitsOf n

theorem val_digit (n : ℕ) : (digit n).val = 0x30 + n % 10 :=
  Nat.mod_eq_of_lt (by omega)

theorem ofChar_digitChar : ∀ {n : ℕ}, n < 10 → CodePoint.ofChar (Nat.digitChar n) = digit n := by
  decide

theorem digitsOf_of_lt {n : ℕ} (h : n < 10) : digitsOf n = [digit n] := by
  rw [digitsOf, Nat.toDigits_of_lt_base h, List.map_singleton, ofChar_digitChar h]

theorem digit_mod (n : ℕ) : digit (n % 10) = digit n := by
  rw [digit, Nat.mod_mod, digit]

theorem digitsOf_of_le {n : ℕ} (h : 10 ≤ n) : digitsOf n = digitsOf (n / 10) ++ [digit n] := by
  rw [digitsOf, Nat.toDigits_of_base_le (by decide) h, List.map_append, List.map_singleton,
    ofChar_digitChar (Nat.mod_lt n (by decide)), digit_mod, digitsOf]

theorem length_digitsOf_le {k n : ℕ} (hk : 0 < k) (h : n < 10 ^ k) : (digitsOf n).length ≤ k := by
  induction k generalizing n with
  | zero => cases hk
  | succ k ih =>
    by_cases hsmall : n < 10
    · rw [digitsOf_of_lt hsmall]
      exact Nat.le_add_left _ _
    · have hle : 10 ≤ n := Nat.not_lt.mp hsmall
      rw [digitsOf_of_le hle, List.length_append, List.length_singleton]
      refine Nat.succ_le_succ (ih ?_ ?_)
      · rw [Nat.pos_iff_ne_zero]
        rintro rfl
        omega
      · rw [Nat.div_lt_iff_lt_mul (by decide)]
        rwa [pow_succ] at h

theorem digitsOf_spec (n : ℕ) : digitsOf n = lastDigits (digitsOf n).length n ∧ n < 10 ^ (digitsOf n).length := by
  induction n using Nat.strongRecOn with
  | ind n ih =>
    by_cases hsmall : n < 10
    · rw [digitsOf_of_lt hsmall]
      exact ⟨rfl, hsmall⟩
    · have hle : 10 ≤ n := Nat.not_lt.mp hsmall
      obtain ⟨hdigits, hlt⟩ := ih (n / 10) (Nat.div_lt_self (by omega) (by decide))
      have hlength : (digitsOf n).length = (digitsOf (n / 10)).length + 1 := by
        rw [digitsOf_of_le hle, List.length_append, List.length_singleton]
      rw [hlength]
      refine ⟨?_, ?_⟩
      · rw [lastDigits, ← hdigits]
        exact digitsOf_of_le hle
      · rw [Nat.div_lt_iff_lt_mul (by decide), ← pow_succ] at hlt
        exact hlt

theorem lastDigits_add {j n : ℕ} (k : ℕ) (h : n < 10 ^ j) :
    lastDigits (k + j) n = List.replicate k 0x30 ++ lastDigits j n := by
  induction j generalizing n with
  | zero =>
    obtain rfl : n = 0 := by omega
    induction k with
    | zero => rfl
    | succ k ih =>
      rw [List.replicate_succ', lastDigits, List.append_nil] at *
      exact congrArg (· ++ [_]) ih
  | succ j ih =>
    have hlt : n / 10 < 10 ^ j := by
      rw [Nat.div_lt_iff_lt_mul (by decide), ← pow_succ]
      exact h
    rw [← Nat.add_assoc, lastDigits, ih hlt, lastDigits, List.append_assoc]

theorem zfill_spec (least n : ℕ) :
    zfill least n = lastDigits (filledWidth least n) n ∧ n < 10 ^ filledWidth least n := by
  obtain ⟨hdigits, hlt⟩ := digitsOf_spec n
  have hwidth : filledWidth least n = least - (digitsOf n).length + (digitsOf n).length := by
    unfold filledWidth
    omega
  refine ⟨?_, hlt.trans_le (Nat.pow_le_pow_right (by decide) (Nat.le_max_right _ _))⟩
  rw [hwidth, lastDigits_add _ hlt, ← hdigits, zfill]

theorem filledWidth_mono (least : ℕ) {n m : ℕ} (h : n ≤ m) : filledWidth least n ≤ filledWidth least m := by
  have hpos : 0 < (digitsOf m).length := by
    rw [digitsOf, List.length_map]
    exact Nat.length_toDigits_pos
  have hle := length_digitsOf_le hpos (Nat.lt_of_le_of_lt h (digitsOf_spec m).2)
  unfold filledWidth
  omega

/-! ### The order -/

theorem lastDigits_append_lt {k n m : ℕ} (h : n < m) (hm : m < 10 ^ k) (x y : Text) :
    lastDigits k n ++ x < lastDigits k m ++ y := by
  induction k generalizing n m x y with
  | zero => omega
  | succ k ih =>
    have hlt : m / 10 < 10 ^ k := by
      rw [Nat.div_lt_iff_lt_mul (by decide), ← pow_succ]
      exact hm
    rw [lastDigits, lastDigits, List.append_assoc, List.append_assoc]
    rcases Nat.lt_or_ge (n / 10) (m / 10) with hfirst | hfirst
    · exact ih hfirst hlt _ _
    · have hsame : n / 10 = m / 10 := by omega
      rw [hsame]
      refine List.append_left_lt (List.cons_lt_cons_iff.mpr (Or.inl ?_))
      rw [Fin.lt_def, val_digit, val_digit]
      omega

theorem lastDigits_split (k d m : ℕ) :
    ∃ rest, lastDigits (k + d) m = lastDigits k (m / 10 ^ d) ++ rest ∧ rest.length = d ∧
      ∀ c ∈ rest, 0x30 ≤ c.val := by
  induction d generalizing m with
  | zero => exact ⟨[], by rw [pow_zero, Nat.div_one, List.append_nil, Nat.add_zero], rfl, fun _ h => nomatch h⟩
  | succ d ih =>
    obtain ⟨rest, hrest, hlength, hdigits⟩ := ih (m / 10)
    refine ⟨rest ++ [digit m], ?_, ?_, ?_⟩
    · rw [← Nat.add_assoc, lastDigits, hrest, List.append_assoc, Nat.div_div_eq_div_mul, ← pow_succ']
    · rw [List.length_append, hlength, List.length_singleton]
    · intro c hc
      rcases List.mem_append.mp hc with hc | hc
      · exact hdigits c hc
      · rw [List.mem_singleton.mp hc, val_digit]
        exact Nat.le_add_right _ _

/-- The first digits of `m`, as many as the filled `n` has. -/
def leading (least n m : ℕ) : ℕ := m / 10 ^ (filledWidth least m - filledWidth least n)

/-- Of two numbers in front of a separator, the smaller comes first in text order where it is at most the first digits
of the other, and last where it is not. -/
theorem zfill_order (least : ℕ) {n m : ℕ} (h : n < m) {sep : CodePoint} (hsep : sep.val < 0x30) (x y : Text) :
    (n ≤ leading least n m → zfill least n ++ sep :: x < zfill least m ++ sep :: y) ∧
      (leading least n m < n → zfill least m ++ sep :: y < zfill least n ++ sep :: x) := by
  obtain ⟨hn, hnlt⟩ := zfill_spec least n
  obtain ⟨hm, hmlt⟩ := zfill_spec least m
  have hwidth := filledWidth_mono least h.le
  obtain ⟨rest, hrest, hlength, hdigits⟩ :=
    lastDigits_split (filledWidth least n) (filledWidth least m - filledWidth least n) m
  rw [Nat.add_sub_cancel' hwidth] at hrest
  have hleading : leading least n m < 10 ^ filledWidth least n := by
    rw [leading, Nat.div_lt_iff_lt_mul (Nat.pow_pos (by decide)), ← pow_add, Nat.add_sub_cancel' hwidth]
    exact hmlt
  rw [hn, hm, hrest, List.append_assoc]
  refine ⟨fun hle => ?_, fun hlt => lastDigits_append_lt hlt hnlt _ _⟩
  rcases Nat.lt_or_eq_of_le hle with hlt | heq
  · exact lastDigits_append_lt hlt hleading _ _
  · rw [← leading, ← heq]
    refine List.append_left_lt ?_
    cases rest with
    | nil =>
      have hsame : filledWidth least m - filledWidth least n = 0 := hlength.symm
      rw [leading, hsame, pow_zero, Nat.div_one] at heq
      exact absurd heq h.ne
    | cons c rest =>
      exact List.cons_lt_cons_iff.mpr (Or.inl (Nat.lt_of_lt_of_le hsep (hdigits c List.mem_cons_self)))

end VidbyteSdk.Lib
