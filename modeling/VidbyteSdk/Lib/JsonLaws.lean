import Mathlib.Data.List.Chain
import Mathlib.Data.List.TakeWhile
import VidbyteSdk.Lib.Json

/-!
# Laws of JSON text

Reading what was written gives the value back, up to the surrogate pairs that the ASCII form joins
and the members that share a key (`loads_dumps`). Reading is stable: text after a value does not
change it (`value_append`), so no part of an object's text that stops short of its end is itself a
JSON text (`loads_prefix_object`).
-/

namespace VidbyteSdk.Lib

namespace Json

open CodePoint

attribute [local grind =] scanPieces joinPieces

/-! ### Strings -/

theorem backslash_ne_quote : backslash ≠ quote := by decide

theorem hexValue_hexDigit (n : Nat) : hexValue (hexDigit n) = some (n % 16) := by
  have hlt : n % 16 < 16 := Nat.mod_lt _ (by decide)
  have hval : (hexDigit n).val = if n % 16 < 10 then 0x30 + n % 16 else 0x57 + n % 16 := by
    unfold hexDigit
    split <;> simp only [Fin.ofNat] <;> omega
  unfold hexValue isDigit
  simp only [hval, Bool.and_eq_true, decide_eq_true_eq]
  by_cases hdec : n % 16 < 10
  · simp only [if_pos hdec]
    rw [if_pos (by omega)]
    exact congrArg some (by omega)
  · simp only [if_neg hdec]
    rw [if_neg (by omega), if_pos (by omega)]
    exact congrArg some (by omega)

variable {c : CodePoint}

theorem hexValues_hexDigits (hc : c.val < 0x10000) :
    hexValues (hexDigit (c.val / 4096)) (hexDigit (c.val / 256)) (hexDigit (c.val / 16))
      (hexDigit c.val) = some c := by
  simp only [hexValues, hexValue_hexDigit, Option.bind_eq_bind, Option.bind_some, Option.some.injEq]
  apply Fin.ext
  simp only [Fin.ofNat]
  omega

theorem val_high (c : CodePoint) : c.high.val = 0xD800 + (c.val - 0x10000) / 0x400 := by
  have := c.isLt
  simp only [high, Fin.ofNat]
  omega

theorem val_low (c : CodePoint) : c.low.val = 0xDC00 + (c.val - 0x10000) % 0x400 := by
  simp only [low, Fin.ofNat]
  omega

theorem isHigh_high (c : CodePoint) : c.high.isHigh = true := by
  have := c.isLt
  simp only [isHigh, val_high, Bool.and_eq_true, decide_eq_true_eq]
  omega

theorem isLow_low (c : CodePoint) : c.low.isLow = true := by
  simp only [isLow, val_low, Bool.and_eq_true, decide_eq_true_eq]
  omega

theorem joined_high_low (h : ¬ c.val < 0x10000) : joined c.high c.low = c := by
  have := c.isLt
  apply Fin.ext
  simp only [joined, val_high, val_low, Fin.ofNat]
  omega

def pieces (ensureAscii : Bool) (c : CodePoint) : List Piece :=
  if (shortEscapes.lookup c).isSome then [.raw c]
  else if c.val < 0x20 then [.unicode c]
  else if ensureAscii && 0x7E < c.val then
    if c.val < 0x10000 then [.unicode c]
    else [.unicode c.high, .unicode c.low]
  else [.raw c]

theorem unescape_of_lookup {c e : CodePoint} (h : shortEscapes.lookup c = some e) :
    unescape e = some c ∧ e ≠ 0x75 := by
  have hall : ∀ p ∈ shortEscapes, unescape p.2 = some p.1 ∧ p.2 ≠ 0x75 :=
    forall_mem_of_all (by decide)
  obtain ⟨before, after, happ, -⟩ := List.lookup_eq_some_iff.mp h
  exact hall (c, e) (by rw [happ]; simp)

theorem scanPieces_quote (t : Text) : scanPieces (quote :: t) = some ([], t) := by
  rw [scanPieces.eq_def]
  simp

theorem scanPieces_unicode {a b c d n : CodePoint} (h : hexValues a b c d = some n) (t : Text) :
    scanPieces (backslash :: 0x75 :: a :: b :: c :: d :: t)
      = (scanPieces t).map fun (ps, r) => (.unicode n :: ps, r) := by
  rw [scanPieces.eq_def]
  simp [backslash_ne_quote, h]

theorem scanPieces_short {c e : CodePoint} (he : e ≠ 0x75) (h : unescape e = some c) (t : Text) :
    scanPieces (backslash :: e :: t) = (scanPieces t).map fun (ps, r) => (.raw c :: ps, r) := by
  rw [scanPieces.eq_def]
  simp [backslash_ne_quote, he, h]

theorem scanPieces_char (hquote : c ≠ quote) (hback : c ≠ backslash)
    (hc : ¬ c.val < 0x20) (t : Text) :
    scanPieces (c :: t) = (scanPieces t).map fun (ps, r) => (.raw c :: ps, r) := by
  rw [scanPieces.eq_def]
  simp only [if_neg hquote, if_neg hback, if_neg hc]

theorem scanPieces_unicodeEscape (hc : c.val < 0x10000) (t : Text) :
    scanPieces (unicodeEscape c.val ++ t)
      = (scanPieces t).map fun (ps, r) => (.unicode c :: ps, r) :=
  scanPieces_unicode (hexValues_hexDigits hc) t

theorem scanPieces_escaped (ensureAscii : Bool) (c : CodePoint) (t : Text) :
    scanPieces (escaped ensureAscii c ++ t)
      = (scanPieces t).map fun (ps, r) => (pieces ensureAscii c ++ ps, r) := by
  unfold escaped pieces
  cases hshort : shortEscapes.lookup c with
  | some e =>
    obtain ⟨hread, hne⟩ := unescape_of_lookup hshort
    exact scanPieces_short hne hread t
  | none =>
    simp only [Option.isSome_none, Bool.false_eq_true, if_false]
    by_cases hlow : c.val < 0x20
    · simp only [if_pos hlow]
      exact scanPieces_unicodeEscape (by omega) t
    · simp only [if_neg hlow]
      by_cases hascii : (ensureAscii && decide (0x7E < c.val)) = true
      · simp only [if_pos hascii]
        by_cases hbmp : c.val < 0x10000
        · simp only [if_pos hbmp]
          exact scanPieces_unicodeEscape hbmp t
        · simp only [if_neg hbmp, List.append_assoc]
          have hhigh := val_high c
          have hlow' := val_low c
          rw [scanPieces_unicodeEscape (by omega), scanPieces_unicodeEscape (by omega),
            Option.map_map]
          rfl
      · simp only [if_neg hascii]
        refine scanPieces_char ?_ ?_ hlow t
        all_goals
          rintro rfl
          exact absurd hshort (by decide)

theorem scanPieces_quoted (ensureAscii : Bool) (t rest : Text) :
    scanPieces (t.flatMap (escaped ensureAscii) ++ quote :: rest)
      = some (t.flatMap (pieces ensureAscii), rest) := by
  induction t with
  | nil =>
    exact scanPieces_quote rest
  | cons c t ih =>
    rw [List.flatMap_cons, List.append_assoc, scanPieces_escaped, ih, List.flatMap_cons]
    rfl

/-- Joins each high surrogate with a low one right after it. -/
def joinPairs : Text → Text
  | [] => []
  | [c] => [c]
  | high :: low :: rest =>
    if high.isHigh && low.isLow then joined high low :: joinPairs rest
    else high :: joinPairs (low :: rest)

def readBack (ensureAscii : Bool) (t : Text) : Text :=
  if ensureAscii then joinPairs t else t

def StartsLow : List Piece → Prop
  | .unicode c :: _ => c.isLow = true
  | _ => False

variable {ps : List Piece}

theorem joinPieces_unicode (h : ¬ (c.isHigh = true ∧ StartsLow ps)) :
    joinPieces (.unicode c :: ps) = c :: joinPieces ps := by
  match ps with
  | [] => rfl
  | .raw _ :: _ => rfl
  | .unicode low :: ps =>
    have hpair : ¬ (c.isHigh && low.isLow) = true := by
      rw [Bool.and_eq_true]
      exact h
    rw [joinPieces, if_neg hpair]

theorem joinPieces_pair {high low : CodePoint} (ps : List Piece) (h : high.isHigh = true)
    (l : low.isLow = true) :
    joinPieces (.unicode high :: .unicode low :: ps) = joined high low :: joinPieces ps := by
  simp [joinPieces, h, l]

theorem lookup_shortEscapes_of_le (h : 0x7E < c.val) :
    shortEscapes.lookup c = none := by
  have hall : ∀ p ∈ shortEscapes, p.1.val ≤ 0x7E := forall_mem_of_all (by decide)
  rw [List.lookup_eq_none_iff]
  intro p hp
  have := hall p hp
  rw [bne_iff_ne]
  rintro rfl
  omega

theorem pieces_of_surrogate (h : c.isHigh = true ∨ c.isLow = true) :
    pieces true c = [.unicode c] := by
  simp only [isHigh, isLow, Bool.and_eq_true, decide_eq_true_eq] at h
  have hlarge : 0x7E < c.val := by omega
  rw [pieces, lookup_shortEscapes_of_le hlarge]
  simp only [Option.isSome_none, Bool.false_eq_true, if_false, Bool.true_and, hlarge, decide_true,
    if_true]
  rw [if_neg (by omega), if_pos (by omega)]

/-- A character followed by pieces that do not complete a pair with it is read back as itself. -/
theorem joinPieces_pieces (ensureAscii : Bool) (c : CodePoint) (ps : List Piece)
    (h : ensureAscii = true → ¬ (c.isHigh = true ∧ StartsLow ps)) :
    joinPieces (pieces ensureAscii c ++ ps) = c :: joinPieces ps := by
  unfold pieces
  split
  · rfl
  split
  · next hlow =>
    apply joinPieces_unicode
    simp only [isHigh, Bool.and_eq_true, decide_eq_true_eq]
    omega
  split
  · next hlarge =>
    rw [Bool.and_eq_true] at hlarge
    split
    · exact joinPieces_unicode (h hlarge.1)
    · next hbmp =>
      exact (joinPieces_pair ps (isHigh_high c) (isLow_low c)).trans (by rw [joined_high_low hbmp])
  · rfl

theorem startsLow_pieces (h : StartsLow (pieces true c ++ ps)) : c.isLow = true := by
  unfold pieces at h
  split at h
  · exact h.elim
  split at h
  · exact h
  split at h
  · split at h
    · exact h
    · have hmax := c.isLt
      simp only [List.cons_append, StartsLow, isLow, val_high, Bool.and_eq_true,
        decide_eq_true_eq] at h
      omega
  · exact h.elim

theorem joinPieces_flatMap_true (t : Text) : joinPieces (t.flatMap (pieces true)) = joinPairs t := by
  induction t using joinPairs.induct with
  | case1 => rfl
  | case2 c =>
    rw [List.flatMap_cons, List.flatMap_nil, joinPieces_pieces true c [] fun _ h => h.2]
    rfl
  | case3 high low rest hpair ih =>
    rw [Bool.and_eq_true] at hpair
    rw [joinPairs, if_pos (by simp [hpair]), List.flatMap_cons, List.flatMap_cons,
      pieces_of_surrogate (Or.inl hpair.1), pieces_of_surrogate (Or.inr hpair.2)]
    rw [← ih]
    exact joinPieces_pair _ hpair.1 hpair.2
  | case4 high low rest hpair ih =>
    rw [joinPairs, if_neg hpair, List.flatMap_cons, joinPieces_pieces, ih]
    rintro - ⟨hhigh, hlow⟩
    rw [List.flatMap_cons] at hlow
    exact hpair (by rw [hhigh, startsLow_pieces hlow]; rfl)

theorem joinPieces_flatMap_false (t : Text) : joinPieces (t.flatMap (pieces false)) = t := by
  induction t with
  | nil => rfl
  | cons c t ih => rw [List.flatMap_cons, joinPieces_pieces false c _ (fun h => absurd h (by decide)), ih]

theorem scanString_quoted (ensureAscii : Bool) (t rest : Text) :
    scanString (t.flatMap (escaped ensureAscii) ++ quote :: rest)
      = some (readBack ensureAscii t, rest) := by
  rw [scanString, scanPieces_quoted]
  cases ensureAscii with
  | false => simp [readBack, joinPieces_flatMap_false]
  | true => simp [readBack, joinPieces_flatMap_true]

/-! ### Words -/

theorem isWordChar_of_isDigit (h : c.isDigit = true) : c.isWordChar = true := by
  simp only [isWordChar, h, Bool.true_or]

variable {t : Text}

theorem mem_takeWhile_or_dropWhile (p : CodePoint → Bool) (h : c ∈ t) :
    p c = true ∨ c ∈ t.dropWhile p := by
  rw [← List.takeWhile_append_dropWhile (p := p) (l := t), List.mem_append] at h
  exact h.imp_left fun h => List.mem_takeWhile_imp h

theorem isWordChar_of_isExponent (h : isExponent t = true) :
    ∀ c ∈ t, c.isWordChar = true := by
  match t with
  | [] => nofun
  | [_] => cases h
  | e :: sign :: digits =>
    simp only [isExponent, Bool.and_eq_true, Bool.or_eq_true, decide_eq_true_eq, List.all_eq_true]
      at h
    obtain ⟨he, hdigits⟩ := h
    rintro c (_ | ⟨_, hc⟩)
    · rcases he with rfl | rfl <;> decide
    rcases hdigits with ⟨⟨hsign, -⟩, hall⟩ | hall
    · rcases List.mem_cons.mp hc with rfl | hc
      · rcases hsign with rfl | rfl <;> decide
      · exact isWordChar_of_isDigit (hall c hc)
    · exact isWordChar_of_isDigit (hall c hc)

variable {kind : WordKind}

theorem isWordChar_of_fractionKind (h : fractionKind t = some kind) :
    ∀ c ∈ t, c.isWordChar = true := by
  match t with
  | [] => nofun
  | point :: rest =>
    simp only [fractionKind] at h
    split at h
    · next hpoint =>
      split at h
      · cases h
      split at h
      · next htail =>
        intro c hc
        rcases List.mem_cons.mp hc with rfl | hc
        · rw [hpoint]
          decide
        rcases mem_takeWhile_or_dropWhile isDigit hc with hdigit | hc
        · exact isWordChar_of_isDigit hdigit
        rw [Bool.or_eq_true, List.isEmpty_iff] at htail
        rcases htail with htail | htail
        · rw [htail] at hc
          cases hc
        · exact isWordChar_of_isExponent htail c hc
      · cases h
    · split at h
      · next hexp => exact isWordChar_of_isExponent hexp
      · cases h

theorem mem_unsigned (h : c ∈ t) : c = minus ∨ c ∈ unsigned t := by
  match t with
  | d :: rest =>
    rw [unsigned]
    split
    · next hd => exact (List.mem_cons.mp h).imp_left fun hc => hd ▸ hc
    · exact Or.inr h

theorem isWordChar_of_wordKind (h : wordKind t = some kind) :
    ∀ c ∈ t, c.isWordChar = true := by
  unfold wordKind at h
  split at h
  · next hnum =>
    unfold unsignedKind at hnum
    split at hnum
    · intro c hc
      rcases mem_unsigned hc with rfl | hc
      · decide
      rcases mem_takeWhile_or_dropWhile isDigit hc with hdigit | hc
      · exact isWordChar_of_isDigit hdigit
      · exact isWordChar_of_fractionKind hnum c hc
    · cases hnum
  · have hall : (constants.all fun p => p.1.all isWordChar) = true := by decide
    obtain ⟨before, after, happ, -⟩ := List.lookup_eq_some_iff.mp h
    exact List.all_eq_true.mp (List.all_eq_true.mp hall (t, kind) (by rw [happ]; simp))

theorem wordKind_nil : wordKind [] = none := by decide +kernel

theorem isDigit_ofChar {c : Char} (h : c.isDigit = true) : (ofChar c).isDigit = true := by
  rw [Char.isDigit_iff_toNat] at h
  rw [isDigit, Bool.and_eq_true, decide_eq_true_eq, decide_eq_true_eq]
  exact h

theorem isDigit_of_mem_digitsOf {n : Nat} (h : c ∈ digitsOf n) :
    c.isDigit = true := by
  obtain ⟨d, hd, rfl⟩ := List.mem_map.mp h
  exact isDigit_ofChar (Nat.isDigit_of_mem_toDigits (by decide) (by decide) hd)

theorem digitsOf_ne_nil (n : Nat) : digitsOf n ≠ [] := by
  simp [digitsOf, Nat.toDigits_ne_nil]

theorem ofDigits_digitsOf (n : Nat) : ofDigits (digitsOf n) = n := by
  rw [ofDigits, digitsOf, List.foldl_map]
  exact Nat.ofDigitChars_ten_toDigits

theorem head?_toDigits {n : Nat} (h : 0 < n) : (Nat.toDigits 10 n).head? ≠ some '0' := by
  induction n using Nat.strongRecOn with
  | ind n ih =>
    rw [Nat.toDigits_eq_if (by decide)]
    split
    · next hlt =>
      have hchar : ∀ d, d < 10 → 0 < d → d.digitChar ≠ '0' := by decide
      rw [List.head?_cons, Ne, Option.some.injEq]
      exact hchar n hlt h
    · rw [List.head?_append_of_ne_nil _ Nat.toDigits_ne_nil]
      exact ih (n / 10) (by omega) (by omega)

theorem isWhole_digitsOf (n : Nat) : isWhole (digitsOf n) = true := by
  rcases Nat.eq_zero_or_pos n with rfl | hpos
  · decide
  · have hhead := head?_toDigits hpos
    unfold digitsOf
    cases hdigits : Nat.toDigits 10 n with
    | nil => exact absurd hdigits Nat.toDigits_ne_nil
    | cons c cs =>
      have hne : ofChar c ≠ 0x30 := by
        intro hc
        rw [hdigits, List.head?_cons, Ne, Option.some.injEq] at hhead
        have hnat : (ofChar c).val = '0'.toNat := by rw [hc]; rfl
        exact hhead (Char.toNat_inj.mp hnat)
      simp [isWhole, hne]

theorem unsigned_of_all_digits (h : ∀ c ∈ t, c.isDigit = true) : unsigned t = t := by
  match t with
  | [] => rfl
  | c :: rest =>
    have hc := h c (by simp)
    have hne : c ≠ minus := by
      rintro rfl
      exact absurd hc (by decide)
    rw [unsigned, if_neg hne]

theorem unsignedKind_digitsOf (n : Nat) : unsignedKind (digitsOf n) = some .int := by
  have hall : ∀ c ∈ digitsOf n, c.isDigit = true := fun c hc => isDigit_of_mem_digitsOf hc
  rw [unsignedKind, List.takeWhile_eq_self_iff.mpr hall, List.dropWhile_eq_nil_iff.mpr hall,
    isWhole_digitsOf]
  rfl

theorem unsigned_intText (n : Int) : unsigned (intText n) = digitsOf n.natAbs := by
  unfold intText
  split
  · rfl
  · exact unsigned_of_all_digits fun c hc => isDigit_of_mem_digitsOf hc

theorem wordKind_intText (n : Int) : wordKind (intText n) = some .int := by
  rw [wordKind, unsigned_intText, unsignedKind_digitsOf]

theorem intOf_intText (n : Int) : intOf (intText n) = n := by
  unfold intText
  split
  · next hneg =>
    simp only [intOf, if_true, ofDigits_digitsOf]
    omega
  · next hpos =>
    cases hdigits : digitsOf n.natAbs with
    | nil => exact absurd hdigits (digitsOf_ne_nil _)
    | cons c cs =>
      have hc : c.isDigit = true := isDigit_of_mem_digitsOf (n := n.natAbs) (by simp [hdigits])
      have hne : c ≠ minus := by
        rintro rfl
        exact absurd hc (by decide)
      rw [intOf, if_neg hne, ← hdigits, ofDigits_digitsOf]
      omega

theorem readWord_of_int (h : wordKind t = some .int) :
    readWord t = some (.int (intOf t)) := by
  unfold readWord
  split <;> simp_all

theorem readWord_of_float (lit : FloatLiteral) : readWord lit.text = some (.float lit) := by
  have := lit.valid
  unfold readWord
  split <;> simp_all

/-! ### Values -/

def WordEnd (t : Text) : Prop := ∀ c ∈ t.head?, c.isWordChar = false

theorem WordEnd.cons (h : c.isWordChar = false) : WordEnd (c :: t) := by
  intro d hd
  cases hd
  exact h

theorem takeWhile_word {t rest : Text} (ht : ∀ c ∈ t, c.isWordChar = true) (hrest : WordEnd rest) :
    (t ++ rest).takeWhile isWordChar = t ∧ (t ++ rest).dropWhile isWordChar = rest := by
  rw [List.takeWhile_append_of_pos ht, List.dropWhile_append_of_pos ht]
  match rest with
  | [] => simp
  | c :: rest => simp [hrest c rfl]

theorem value_word {t rest : Text} {n : Nat} (hn : 0 < n)
    (h : wordKind t = some kind) (hrest : WordEnd rest) :
    value n (t ++ rest) = (readWord t).map fun j => (j, rest) := by
  obtain ⟨n, rfl⟩ := Nat.exists_eq_add_of_lt hn
  have hword := isWordChar_of_wordKind h
  obtain ⟨htake, hdrop⟩ := takeWhile_word hword hrest
  match t with
  | [] =>
    rw [wordKind_nil] at h
    cases h
  | c :: t =>
    have hc : c.isWordChar = true := hword c (by simp)
    have hopen : c ≠ quote ∧ c ≠ leftBracket ∧ c ≠ leftBrace := by
      refine ⟨?_, ?_, ?_⟩ <;> (rintro rfl; exact absurd hc (by decide))
    rw [List.cons_append] at htake hdrop ⊢
    simp only [value, if_neg hopen.1, if_neg hopen.2.1, if_neg hopen.2.2, htake, hdrop]

theorem skipWs_cons (h : c.isWs = false) (t : Text) : skipWs (c :: t) = c :: t := by
  simp [skipWs, h]

theorem skipWs_space (t : Text) : skipWs (space :: t) = skipWs t := by
  have : isWs space = true := by decide
  simp [skipWs, this]

/-- `item` reads the text `t` as `a` when a separator or the closing character follows it. -/
structure Reads {α : Type} (item : Text → Option (α × Text)) (close : CodePoint) (t : Text)
    (a : α) : Prop where
  read : ∀ c r, c = close ∨ c = comma → item (t ++ c :: r) = some (a, c :: r)
  start : ∃ c u, t = c :: u ∧ c.isWs = false ∧ c ≠ close

section

variable {α : Type} {item : Text → Option (α × Text)} {close : CodePoint}

theorem items_sequenceText (hws : close.isWs = false) (hcomma : close ≠ comma) {a : α}
    {texts : List Text} {as : List α} {n : Nat} (rest : Text)
    (h : List.Forall₂ (Reads item close) (t :: texts) (a :: as)) (hn : texts.length < n) :
    items item close n (sequenceText close (t :: texts) ++ rest) = some (a :: as, rest) := by
  induction texts generalizing t a as n with
  | nil =>
    obtain ⟨hread, hnil⟩ := List.forall₂_cons.mp h
    obtain rfl := List.forall₂_nil_left_iff.mp hnil
    obtain ⟨n, rfl⟩ := Nat.exists_eq_add_of_lt hn
    have hitem := hread.read close rest (Or.inl rfl)
    simp only [sequenceText, List.append_assoc, List.cons_append, List.nil_append, items, hitem,
      skipWs_cons hws, if_true]
  | cons u us ih =>
    obtain ⟨hread, htail⟩ := List.forall₂_cons.mp h
    obtain ⟨b, bs, hu, hus, rfl⟩ := List.forall₂_cons_left_iff.mp htail
    obtain ⟨n, rfl⟩ : ∃ m, n = m + 1 := ⟨n - 1, by simp at hn; omega⟩
    have hnext : items item close n (sequenceText close (u :: us) ++ rest) = some (b :: bs, rest) :=
      ih (List.Forall₂.cons hu hus) (by simpa using hn)
    obtain ⟨c, v, rfl, hc, -⟩ := hu.start
    have hhead : ∃ w, sequenceText close ((c :: v) :: us) ++ rest = c :: w := by
      cases us <;> exact ⟨_, rfl⟩
    obtain ⟨w, hw⟩ := hhead
    have hitem := hread.read comma (space :: (sequenceText close ((c :: v) :: us) ++ rest))
      (Or.inr rfl)
    have hsep : isWs comma = false := by decide
    rw [sequenceText, List.append_assoc, List.cons_append, List.cons_append]
    simp only [items, hitem, skipWs_cons hsep, if_neg hcomma.symm, if_true, skipWs_space]
    rw [hw, skipWs_cons hc, ← hw, hnext]
    rfl

theorem sequence_sequenceText (hws : close.isWs = false) (hcomma : close ≠ comma)
    {texts : List Text} {as : List α} {n : Nat} (rest : Text)
    (h : List.Forall₂ (Reads item close) texts as) (hn : texts.length ≤ n) :
    sequence item close n (sequenceText close texts ++ rest) = some (as, rest) := by
  cases h with
  | nil => simp [sequenceText, sequence, skipWs_cons hws]
  | @cons t a texts as hread htail =>
    obtain ⟨c, u, rfl, hc, hne⟩ := hread.start
    have hitems := items_sequenceText hws hcomma rest (List.Forall₂.cons hread htail) hn
    have hhead : ∃ w, sequenceText close ((c :: u) :: texts) ++ rest = c :: w := by
      cases texts <;> exact ⟨_, rfl⟩
    obtain ⟨w, hw⟩ := hhead
    rw [hw] at hitems ⊢
    rw [sequence, skipWs_cons hc]
    simp only [if_neg hne, hitems]

end

theorem length_le_sequenceText (close : CodePoint) {texts : List Text} (h : t ∈ texts) :
    t.length < (sequenceText close texts).length := by
  induction texts using sequenceText.induct with
  | case1 => cases h
  | case2 u =>
    obtain rfl := List.mem_singleton.mp h
    simp [sequenceText]
  | case3 u v us ih =>
    simp only [sequenceText, List.length_append, List.length_cons]
    rcases List.mem_cons.mp h with rfl | h
    · omega
    · have := ih h
      omega

theorem length_texts_le (close : CodePoint) (texts : List Text) :
    texts.length ≤ (sequenceText close texts).length := by
  induction texts using sequenceText.induct with
  | case1 => simp
  | case2 u => simp [sequenceText]
  | case3 u v us ih =>
    simp only [sequenceText, List.length_append, List.length_cons] at ih ⊢
    omega

/-- Induction on a value: a list or an object assumes the statement of each of its values. -/
theorem induction {P : Json → Prop} (null : P .null) (bool : ∀ b, P (.bool b))
    (int : ∀ n, P (.int n)) (float : ∀ lit, P (.float lit)) (str : ∀ t, P (.str t))
    (arr : ∀ items, (∀ j ∈ items, P j) → P (.arr items))
    (obj : ∀ members, (∀ m ∈ members, P m.2) → P (.obj members)) (j : Json) : P j := by
  refine Json.rec (motive_1 := P) (motive_2 := fun items => ∀ j ∈ items, P j)
    (motive_3 := fun members => ∀ m ∈ members, P m.2) (motive_4 := fun m => P m.2)
    null bool int float str arr obj nofun ?_ nofun ?_ (fun _ _ hv => hv) j
  · intro item items hitem hitems j hj
    rcases List.mem_cons.mp hj with rfl | hj
    · exact hitem
    · exact hitems j hj
  · intro m members hm hmembers p hp
    rcases List.mem_cons.mp hp with rfl | hp
    · exact hm
    · exact hmembers p hp

mutual

def normal (ensureAscii : Bool) : Json → Json
  | .null => .null
  | .bool b => .bool b
  | .int n => .int n
  | .float lit => .float lit
  | .str t => .str (readBack ensureAscii t)
  | .arr items => .arr (normalItems ensureAscii items)
  | .obj members => .obj (dictOf (normalMembers ensureAscii members))

def normalItems (ensureAscii : Bool) : List Json → List Json
  | [] => []
  | item :: items => normal ensureAscii item :: normalItems ensureAscii items

def normalMembers (ensureAscii : Bool) : List (Text × Json) → List (Text × Json)
  | [] => []
  | (k, v) :: members =>
    (readBack ensureAscii k, normal ensureAscii v) :: normalMembers ensureAscii members

end

variable {ensureAscii : Bool}

theorem quoted_append (ensureAscii : Bool) (t rest : Text) :
    quoted ensureAscii t ++ rest = quote :: (t.flatMap (escaped ensureAscii) ++ quote :: rest) := by
  simp [quoted]

theorem dumps_start (ensureAscii : Bool) (j : Json) :
    ∃ c u, dumps ensureAscii j = c :: u ∧ c.isWs = false ∧ c ≠ rightBracket ∧ c ≠ rightBrace := by
  have hword : ∀ {t : Text} {kind : WordKind}, wordKind t = some kind →
      ∃ c u, t = c :: u ∧ c.isWs = false ∧ c ≠ rightBracket ∧ c ≠ rightBrace := by
    intro t kind h
    match t with
    | [] =>
      rw [wordKind_nil] at h
      cases h
    | c :: u =>
      have hc : c.isWordChar = true := isWordChar_of_wordKind h c (by simp)
      refine ⟨c, u, rfl, ?_, ?_, ?_⟩
      · by_contra hws
        simp only [isWs, Bool.not_eq_false, Bool.or_eq_true, decide_eq_true_eq] at hws
        rcases hws with ((rfl | rfl) | rfl) | rfl <;> exact absurd hc (by decide)
      · rintro rfl
        exact absurd hc (by decide)
      · rintro rfl
        exact absurd hc (by decide)
  cases j with
  | null => exact ⟨_, _, rfl, by decide, by decide, by decide⟩
  | bool b => cases b <;> exact ⟨_, _, rfl, by decide, by decide, by decide⟩
  | int n => exact hword (wordKind_intText n)
  | float lit => exact hword lit.valid
  | str t => exact ⟨_, _, rfl, by decide, by decide, by decide⟩
  | arr items => exact ⟨_, _, rfl, by decide, by decide, by decide⟩
  | obj members => exact ⟨_, _, rfl, by decide, by decide, by decide⟩

theorem dumps_ne_nil (ensureAscii : Bool) (j : Json) : dumps ensureAscii j ≠ [] := by
  obtain ⟨c, u, h, -⟩ := dumps_start ensureAscii j
  rw [h]
  simp

/-- What the reader has to do with one value, given enough fuel. -/
def ReadsBack (ensureAscii : Bool) (j : Json) : Prop :=
  ∀ n rest, (dumps ensureAscii j).length ≤ n → WordEnd rest →
    value n (dumps ensureAscii j ++ rest) = some (normal ensureAscii j, rest)

theorem wordEnd_of_separator {c close : CodePoint} {r : Text}
    (hclose : close.isWordChar = false) (h : c = close ∨ c = comma) : WordEnd (c :: r) := by
  rcases h with rfl | rfl
  · exact WordEnd.cons hclose
  · exact WordEnd.cons (by decide)

theorem reads_items {items : List Json} {n : Nat} (h : ∀ j ∈ items, ReadsBack ensureAscii j)
    (hn : ∀ t ∈ dumpsItems ensureAscii items, t.length ≤ n) :
    List.Forall₂ (Reads (value n) rightBracket) (dumpsItems ensureAscii items)
      (normalItems ensureAscii items) := by
  induction items with
  | nil => exact List.Forall₂.nil
  | cons j items ih =>
    rw [dumpsItems] at hn ⊢
    refine List.Forall₂.cons ⟨fun c r hc => ?_, ?_⟩
      (ih (fun j hj => h j (by simp [hj])) fun t ht => hn t (by simp [ht]))
    · exact h j (by simp) n _ (hn _ (by simp)) (wordEnd_of_separator (by decide) hc)
    · obtain ⟨c, u, hstart, hws, hne, -⟩ := dumps_start ensureAscii j
      exact ⟨c, u, hstart, hws, hne⟩

theorem member_text {k : Text} {j : Json} {n : Nat} {r : Text} (h : ReadsBack ensureAscii j)
    (hn : (dumps ensureAscii j).length ≤ n) (hr : WordEnd r) :
    member (value n) (quoted ensureAscii k ++ colon :: space :: dumps ensureAscii j ++ r)
      = some ((readBack ensureAscii k, normal ensureAscii j), r) := by
  obtain ⟨c, u, hstart, hws, -⟩ := dumps_start ensureAscii j
  have hcolon : isWs colon = false := by decide
  have hskip : skipWs (space :: (dumps ensureAscii j ++ r)) = dumps ensureAscii j ++ r := by
    rw [skipWs_space, hstart, List.cons_append, skipWs_cons hws]
  rw [List.append_assoc, quoted_append, member]
  simp only [if_true, scanString_quoted, List.cons_append, skipWs_cons hcolon, hskip, h n r hn hr,
    Option.map_some]

variable {members : List (Text × Json)}

theorem reads_members {n : Nat}
    (h : ∀ m ∈ members, ReadsBack ensureAscii m.2)
    (hn : ∀ t ∈ dumpsMembers ensureAscii members, t.length ≤ n) :
    List.Forall₂ (Reads (member (value n)) rightBrace) (dumpsMembers ensureAscii members)
      (normalMembers ensureAscii members) := by
  induction members with
  | nil => exact List.Forall₂.nil
  | cons m members ih =>
    obtain ⟨k, v⟩ := m
    rw [dumpsMembers] at hn ⊢
    refine List.Forall₂.cons ⟨fun c r hc => ?_, ?_⟩
      (ih (fun m hm => h m (by simp [hm])) fun t ht => hn t (by simp [ht]))
    · have hlen := hn _ (List.mem_cons_self ..)
      simp only [List.length_append, List.length_cons] at hlen
      exact member_text (h (k, v) (by simp)) (by omega) (wordEnd_of_separator (by decide) hc)
    · exact ⟨quote, _, quoted_append ensureAscii k _, by decide, by decide⟩

theorem readsBack_of_word {j : Json} (ht : dumps ensureAscii j = t)
    (hkind : wordKind t = some kind) (hread : readWord t = some (normal ensureAscii j)) :
    ReadsBack ensureAscii j := by
  intro n rest hn hrest
  have hpos : 0 < (dumps ensureAscii j).length := List.length_pos_iff.mpr (dumps_ne_nil _ j)
  rw [ht, value_word (by omega) hkind hrest, hread]
  rfl

/-- A value's text, with anything but more of a word after it, is read back as the value. -/
theorem readsBack (ensureAscii : Bool) (j : Json) : ReadsBack ensureAscii j := by
  induction j using induction with
  | null =>
    have hkind : wordKind (word ['n', 'u', 'l', 'l']) = some .null := by decide
    exact readsBack_of_word rfl hkind rfl
  | bool b =>
    cases b with
    | true =>
      have hkind : wordKind (word ['t', 'r', 'u', 'e']) = some .true := by decide
      exact readsBack_of_word rfl hkind rfl
    | false =>
      have hkind : wordKind (word ['f', 'a', 'l', 's', 'e']) = some .false := by decide
      exact readsBack_of_word rfl hkind rfl
  | int n =>
    have hread : readWord (intText n) = some (.int n) := by
      rw [readWord_of_int (wordKind_intText n), intOf_intText]
    exact readsBack_of_word rfl (wordKind_intText n) hread
  | float lit => exact readsBack_of_word rfl lit.valid (readWord_of_float lit)
  | str t =>
    intro n rest hn _
    obtain ⟨n, rfl⟩ : ∃ m, n = m + 1 := ⟨n - 1, by simp [dumps, quoted] at hn; omega⟩
    rw [dumps, quoted_append, value, if_pos rfl, scanString_quoted]
    rfl
  | arr items ih =>
    intro n rest hn _
    rw [dumps, List.length_cons] at hn
    obtain ⟨n, rfl⟩ : ∃ m, n = m + 1 := ⟨n - 1, by omega⟩
    have hreads := reads_items ih fun t ht =>
      ((length_le_sequenceText rightBracket ht).le.trans (by omega : _ ≤ n))
    have hcount := (length_texts_le rightBracket (dumpsItems ensureAscii items)).trans
      (by omega : _ ≤ n)
    have hseq := sequence_sequenceText (by decide) (by decide) rest hreads hcount
    rw [dumps, List.cons_append, value, if_neg (by decide), if_pos rfl, hseq]
    rfl
  | obj members ih =>
    intro n rest hn _
    rw [dumps, List.length_cons] at hn
    obtain ⟨n, rfl⟩ : ∃ m, n = m + 1 := ⟨n - 1, by omega⟩
    have hreads := reads_members ih fun t ht =>
      ((length_le_sequenceText rightBrace ht).le.trans (by omega : _ ≤ n))
    have hcount := (length_texts_le rightBrace (dumpsMembers ensureAscii members)).trans
      (by omega : _ ≤ n)
    have hseq := sequence_sequenceText (by decide) (by decide) rest hreads hcount
    rw [dumps, List.cons_append, value, if_neg (by decide), if_neg (by decide), if_pos rfl, hseq]
    rfl

theorem loads_dumps (ensureAscii : Bool) (j : Json) :
    loads (dumps ensureAscii j) = some (normal ensureAscii j) := by
  obtain ⟨c, u, hstart, hws, -⟩ := dumps_start ensureAscii j
  have hskip : skipWs (dumps ensureAscii j) = dumps ensureAscii j := by
    rw [hstart, skipWs_cons hws]
  have hread := readsBack ensureAscii j (dumps ensureAscii j).length [] le_rfl nofun
  rw [List.append_nil] at hread
  rw [loads, hskip, hread]
  rfl

/-! ### Values that are read back as they are -/

theorem normal_str (t : Text) : normal ensureAscii (.str t) = .str (readBack ensureAscii t) := by
  rw [normal]

theorem normal_arr (items : List Json) :
    normal ensureAscii (.arr items) = .arr (items.map (normal ensureAscii)) := by
  have hitems : normalItems ensureAscii items = items.map (normal ensureAscii) := by
    induction items with
    | nil => rfl
    | cons j items ih => rw [normalItems, ih, List.map_cons]
  rw [normal, hitems]

theorem normal_obj (hnodup : (members.map Prod.fst).Nodup)
    (hkeys : ∀ m ∈ members, readBack ensureAscii m.1 = m.1) :
    normal ensureAscii (.obj members)
      = .obj (members.map fun m => (m.1, normal ensureAscii m.2)) := by
  have hmembers : normalMembers ensureAscii members
      = members.map fun m => (m.1, normal ensureAscii m.2) := by
    clear hnodup
    induction members with
    | nil => rfl
    | cons m members ih =>
      rw [normalMembers, hkeys m (by simp), ih fun m hm => hkeys m (by simp [hm]), List.map_cons]
  have hmapped : ((members.map fun m => (m.1, normal ensureAscii m.2)).map Prod.fst).Nodup := by
    rw [List.map_map]
    exact hnodup
  rw [normal, hmembers, dictOf, upsertAll_of_nodup hmapped]

/-! ### Surrogate pairs -/

def NoPairs (t : Text) : Prop := t.IsChain fun a b => ¬ (a.isHigh = true ∧ b.isLow = true)

theorem joinPairs_eq_self (h : NoPairs t) : joinPairs t = t := by
  induction t using joinPairs.induct with
  | case1 => rfl
  | case2 c => rfl
  | case3 high low rest hpair ih =>
    rw [Bool.and_eq_true] at hpair
    exact absurd hpair (List.isChain_cons_cons.mp h).1
  | case4 high low rest hpair ih =>
    rw [joinPairs, if_neg hpair, ih (List.isChain_cons_cons.mp h).2]

theorem noPairs_of_forall (h : ∀ c ∈ t, c.isHigh = false) : NoPairs t := by
  induction t with
  | nil => exact List.IsChain.nil
  | cons c t ih =>
    have hc := h c (by simp)
    match t with
    | [] => exact List.IsChain.singleton c
    | d :: t =>
      refine List.isChain_cons_cons.mpr ⟨fun hpair => ?_, ih fun d hd => h d (by simp [hd])⟩
      rw [hc] at hpair
      exact absurd hpair.1 (by decide)

theorem val_joined {high low : CodePoint} (h : high.isHigh = true) (l : low.isLow = true) :
    0x10000 ≤ (joined high low).val := by
  simp only [isHigh, isLow, Bool.and_eq_true, decide_eq_true_eq] at h l
  simp only [joined, Fin.ofNat]
  omega

theorem noPairs_joinPairs (t : Text) : NoPairs (joinPairs t) := by
  induction t using joinPairs.induct with
  | case1 => exact List.IsChain.nil
  | case2 c => exact List.IsChain.singleton c
  | case3 high low rest hpair ih =>
    rw [joinPairs, if_pos hpair]
    rw [Bool.and_eq_true] at hpair
    have hjoined : ¬ (joined high low).isHigh = true := by
      have := val_joined hpair.1 hpair.2
      simp only [isHigh, Bool.and_eq_true, decide_eq_true_eq]
      omega
    exact List.isChain_cons.mpr ⟨fun b _ hb => hjoined hb.1, ih⟩
  | case4 high low rest hpair ih =>
    rw [joinPairs, if_neg hpair]
    refine List.isChain_cons.mpr ⟨fun b hb hboth => ?_, ih⟩
    match rest with
    | [] =>
      obtain rfl : low = b := Option.some.inj hb
      exact hpair (by rw [hboth.1, hboth.2]; rfl)
    | c :: rest =>
      rw [joinPairs] at hb
      split at hb
      · next hnext =>
        rw [Bool.and_eq_true] at hnext
        have hb : joined low c = b := Option.some.inj hb
        have := val_joined hnext.1 hnext.2
        have hlow := hboth.2
        rw [← hb] at hlow
        simp only [isLow, Bool.and_eq_true, decide_eq_true_eq] at hlow
        omega
      · obtain rfl : low = b := Option.some.inj hb
        exact hpair (by rw [hboth.1, hboth.2]; rfl)

theorem joinPairs_joinPairs (t : Text) : joinPairs (joinPairs t) = joinPairs t :=
  joinPairs_eq_self (noPairs_joinPairs t)

theorem mem_joinPairs (h : c ∈ joinPairs t) :
    c ∈ t ∨ 0x10000 ≤ c.val := by
  induction t using joinPairs.induct with
  | case1 => exact Or.inl h
  | case2 d => exact Or.inl h
  | case3 high low rest hpair ih =>
    rw [joinPairs, if_pos hpair] at h
    rw [Bool.and_eq_true] at hpair
    rcases List.mem_cons.mp h with rfl | h
    · exact Or.inr (val_joined hpair.1 hpair.2)
    · exact (ih h).imp_left fun h => by simp [h]
  | case4 high low rest hpair ih =>
    rw [joinPairs, if_neg hpair] at h
    rcases List.mem_cons.mp h with rfl | h
    · exact Or.inl (by simp)
    · exact (ih h).imp_left fun h => List.mem_cons_of_mem _ h

/-- A property that no surrogate has, nor any character beyond the basic plane, is not changed. -/
theorem all_joinPairs {p : CodePoint → Bool} (t : Text)
    (hp : ∀ c : CodePoint, p c = true → c.val < 0xD800 ∨ (0xE000 ≤ c.val ∧ c.val < 0x10000)) :
    (joinPairs t).all p = t.all p := by
  induction t using joinPairs.induct with
  | case1 => rfl
  | case2 c => rfl
  | case3 high low rest hpair ih =>
    rw [joinPairs, if_pos hpair, List.all_cons, List.all_cons]
    rw [Bool.and_eq_true] at hpair
    have hjoined : p (joined high low) = false := by
      by_contra hne
      have := hp _ (by simpa using hne)
      have := val_joined hpair.1 hpair.2
      omega
    have hhigh : p high = false := by
      by_contra hne
      have := hp _ (by simpa using hne)
      simp only [isHigh, Bool.and_eq_true, decide_eq_true_eq] at hpair
      omega
    rw [hjoined, hhigh, Bool.false_and, Bool.false_and]
  | case4 high low rest hpair ih =>
    rw [joinPairs, if_neg hpair, List.all_cons, List.all_cons, ih, List.all_cons]

/-! ### Stability

More text after what a reader consumed, and more fuel, change nothing. -/

variable {p r : Text}

theorem scanPieces_append (x : Text)
    (h : scanPieces p = some (ps, r)) : scanPieces (p ++ x) = some (ps, r ++ x) := by
  induction p using scanPieces.induct generalizing ps with
  | case1 => cases h
  | case2 rest =>
    rw [scanPieces_quote] at h
    cases h
    exact scanPieces_quote _
  | case4 a b c d rest n hn _ ih =>
    rw [scanPieces_unicode hn, Option.map_eq_some_iff] at h
    obtain ⟨⟨ps, r⟩, hrest, h⟩ := h
    cases h
    simp only [List.cons_append]
    rw [scanPieces_unicode hn, ih hrest]
    rfl
  | case7 e rest he c hc _ ih =>
    rw [scanPieces_short he hc, Option.map_eq_some_iff] at h
    obtain ⟨⟨ps, r⟩, hrest, h⟩ := h
    cases h
    simp only [List.cons_append]
    rw [scanPieces_short he hc, ih hrest]
    rfl
  | case10 c rest hquote hback hc ih =>
    rw [scanPieces_char hquote hback hc, Option.map_eq_some_iff] at h
    obtain ⟨⟨ps, r⟩, hrest, h⟩ := h
    cases h
    rw [List.cons_append, scanPieces_char hquote hback hc, ih hrest]
    rfl
  | _ =>
    rw [scanPieces.eq_def] at h
    simp_all [backslash_ne_quote]

theorem skipWs_append (x : Text) (h : skipWs p = c :: r) :
    skipWs (p ++ x) = c :: (r ++ x) := by
  unfold skipWs at *
  rw [List.dropWhile_append, h]
  simp

theorem wordEnd_of_skipWs (x : Text) (h : skipWs p = c :: r)
    (hc : c.isWordChar = false) : WordEnd (p ++ x) := by
  match p with
  | [] => cases h
  | d :: p =>
    apply WordEnd.cons
    by_cases hd : d.isWs = true
    · simp only [isWs, Bool.or_eq_true, decide_eq_true_eq] at hd
      rcases hd with ((rfl | rfl) | rfl) | rfl <;> decide
    · rw [skipWs_cons (Bool.not_eq_true _ ▸ hd)] at h
      cases h
      exact hc

theorem scanString_append {p r t : Text} (x : Text) (h : scanString p = some (t, r)) :
    scanString (p ++ x) = some (t, r ++ x) := by
  rw [scanString, Option.map_eq_some_iff] at h
  obtain ⟨⟨ps, r⟩, hscan, h⟩ := h
  cases h
  rw [scanString, scanPieces_append x hscan]
  rfl

/-- `g` reads what `f` reads, whatever stands after it. -/
def Extends {α : Type} (f g : Text → Option (α × Text)) : Prop :=
  ∀ p a r x, f p = some (a, r) → WordEnd (r ++ x) → g (p ++ x) = some (a, r ++ x)

section

variable {α : Type} {f g : Text → Option (α × Text)} {close : CodePoint} {n m : Nat}

theorem items_nil (hnil : f [] = none) : items f close n [] = none := by
  cases n with
  | zero => rfl
  | succ n => rw [items, hnil]

theorem items_append (hfg : Extends f g) (hnil : f [] = none) (hclose : close.isWordChar = false)
    (hnm : n ≤ m) {as : List α} (x : Text) (h : items f close n p = some (as, r)) :
    items g close m (p ++ x) = some (as, r ++ x) := by
  induction n generalizing m p as with
  | zero => cases h
  | succ n ih =>
    obtain ⟨m, rfl⟩ : ∃ k, m = k + 1 := ⟨m - 1, by omega⟩
    rw [items] at h
    split at h
    · cases h
    next a r₁ hitem =>
    split at h
    · cases h
    next c r₂ hskip =>
    have hread : c.isWordChar = false → g (p ++ x) = some (a, r₁ ++ x) := fun hc =>
      hfg p a r₁ x hitem (wordEnd_of_skipWs x hskip hc)
    have hskip' := skipWs_append x hskip
    split at h
    · next hc =>
      cases h
      rw [items, hread (hc ▸ hclose)]
      simp only [hskip', if_pos hc]
    split at h
    · next hne hc =>
      rw [Option.map_eq_some_iff] at h
      obtain ⟨⟨bs, r⟩, hnext, h⟩ := h
      cases h
      have hcomma : isWordChar comma = false := by decide
      rw [items, hread (hc ▸ hcomma)]
      simp only [hskip', if_neg hne, if_pos hc]
      have hrest : skipWs (r₂ ++ x) = skipWs r₂ ++ x := by
        cases hws : skipWs r₂ with
        | nil =>
          rw [hws, items_nil hnil] at hnext
          cases hnext
        | cons d s => exact skipWs_append x hws
      rw [hrest, ih (by omega) hnext]
      rfl
    · cases h

theorem sequence_append (hfg : Extends f g) (hnil : f [] = none)
    (hclose : close.isWordChar = false) (hnm : n ≤ m) {as : List α} (x : Text)
    (h : sequence f close n p = some (as, r)) :
    sequence g close m (p ++ x) = some (as, r ++ x) := by
  rw [sequence] at h
  split at h
  · cases h
  next c r₁ hskip =>
  rw [sequence, skipWs_append x hskip]
  split at h
  · next hc =>
    cases h
    simp only [if_pos hc]
  · next hne =>
    simp only [if_neg hne]
    exact items_append hfg hnil hclose hnm x h

theorem extends_member (hfg : Extends f g) (hnil : f [] = none) :
    Extends (member f) (member g) := by
  intro p a r x h hr
  match p with
  | [] => cases h
  | c :: t =>
    rw [member] at h
    split at h
    · next hc =>
      split at h
      · cases h
      next k r₁ hkey =>
      split at h
      · cases h
      next d r₂ hskip =>
      split at h
      · next hd =>
        rw [Option.map_eq_some_iff] at h
        obtain ⟨⟨v, r⟩, hval, h⟩ := h
        cases h
        have hrest : skipWs (r₂ ++ x) = skipWs r₂ ++ x := by
          cases hws : skipWs r₂ with
          | nil =>
            rw [hws, hnil] at hval
            cases hval
          | cons d s => exact skipWs_append x hws
        rw [List.cons_append, member, if_pos hc, scanString_append x hkey]
        simp only [skipWs_append x hskip, if_pos hd, hrest, hfg _ _ _ _ hval hr]
        rfl
      · cases h
    · cases h

end

theorem value_nil (n : Nat) : value n [] = none := by
  cases n <;> rfl

/-- A value that was read is read with more fuel and more text after it, unless it is a word that
goes on. -/
theorem extends_value {n m : Nat} (hnm : n ≤ m) : Extends (value n) (value m) := by
  induction n generalizing m with
  | zero =>
    intro p a r x h
    cases h
  | succ n ih =>
    obtain ⟨m, rfl⟩ : ∃ k, m = k + 1 := ⟨m - 1, by omega⟩
    intro p j r x h hr
    match p with
    | [] => cases h
    | c :: t =>
      rw [value] at h
      rw [List.cons_append, value]
      split at h
      · next hc =>
        rw [Option.map_eq_some_iff] at h
        obtain ⟨⟨s, r⟩, hscan, h⟩ := h
        cases h
        rw [if_pos hc, scanString_append x hscan]
        rfl
      next hquote =>
      rw [if_neg hquote]
      split at h
      · next hc =>
        rw [Option.map_eq_some_iff] at h
        obtain ⟨⟨as, r⟩, hseq, h⟩ := h
        cases h
        rw [if_pos hc,
          sequence_append (ih (by omega)) (value_nil n) (by decide) (by omega : n ≤ m) x hseq]
        rfl
      next hbracket =>
      rw [if_neg hbracket]
      split at h
      · next hc =>
        rw [Option.map_eq_some_iff] at h
        obtain ⟨⟨ms, r⟩, hseq, h⟩ := h
        cases h
        rw [if_pos hc,
          sequence_append (extends_member (ih (by omega)) (value_nil n)) rfl (by decide)
            (by omega : n ≤ m) x hseq]
        rfl
      next hbrace =>
      rw [if_neg hbrace]
      rw [Option.map_eq_some_iff] at h
      obtain ⟨i, hword, h⟩ := h
      cases h
      have hall : ∀ d ∈ (c :: t).takeWhile isWordChar, d.isWordChar = true := fun d hd =>
        List.mem_takeWhile_imp hd
      obtain ⟨htake, hdrop⟩ := takeWhile_word hall hr
      rw [← List.append_assoc, List.takeWhile_append_dropWhile, List.cons_append] at htake hdrop
      rw [htake, hdrop, hword]
      rfl

theorem object_append {n m : Nat} (hnm : n ≤ m) {t r : Text} {j : Json} (x : Text)
    (h : value n (leftBrace :: t) = some (j, r)) :
    value m (leftBrace :: (t ++ x)) = some (j, r ++ x) := by
  match n with
  | 0 => cases h
  | n + 1 =>
    obtain ⟨m, rfl⟩ : ∃ k, m = k + 1 := ⟨m - 1, by omega⟩
    rw [value, if_neg (by decide), if_neg (by decide), if_pos rfl, Option.map_eq_some_iff] at h ⊢
    obtain ⟨⟨ms, r⟩, hseq, h⟩ := h
    cases h
    exact ⟨(ms, r ++ x), sequence_append (extends_member (extends_value (by omega)) (value_nil n)) rfl
      (by decide) (by omega : n ≤ m) x hseq, rfl⟩

theorem loads_prefix_object {p x : Text}
    (h : dumps ensureAscii (.obj members) = p ++ x) (hx : x ≠ []) : loads p = none := by
  match p with
  | [] => rfl
  | c :: t =>
    obtain rfl : leftBrace = c := (List.cons.inj h).1
    have hws : isWs leftBrace = false := by decide
    rw [loads, skipWs_cons hws]
    split
    · next j r hval =>
      split
      · have hfull := readsBack ensureAscii (.obj members)
          (dumps ensureAscii (.obj members)).length [] le_rfl nofun
        have hlen : (leftBrace :: t).length ≤ (dumps ensureAscii (.obj members)).length := by
          rw [h, List.length_append]
          omega
        have hext := object_append hlen x hval
        rw [List.append_nil] at hfull
        rw [← List.cons_append, ← h, hfull] at hext
        have hrest : [] = r ++ x := congrArg Prod.snd (Option.some.inj hext)
        exact absurd (List.append_eq_nil_iff.mp hrest.symm).2 hx
      · rfl
    · rfl

/-! ### The characters of a text -/

mutual

def characters : Json → Text
  | .str t => t
  | .arr items => charactersOfItems items
  | .obj members => charactersOfMembers members
  | _ => []

def charactersOfItems : List Json → Text
  | [] => []
  | item :: items => characters item ++ charactersOfItems items

def charactersOfMembers : List (Text × Json) → Text
  | [] => []
  | (k, v) :: members => k ++ characters v ++ charactersOfMembers members

end

/-- A printable ASCII character. -/
def IsPlain (c : CodePoint) : Prop := 0x20 ≤ c.val ∧ c.val ≤ 0x7E

instance (c : CodePoint) : Decidable (IsPlain c) := inferInstanceAs (Decidable (_ ∧ _))

/-- What a written text may hold: plain characters and, unless everything beyond ASCII is escaped,
characters of its strings. -/
def Written (ensureAscii : Bool) (strings : Text) (c : CodePoint) : Prop :=
  IsPlain c ∨ ensureAscii = false ∧ 0x20 ≤ c.val ∧ c ∈ strings

theorem Written.mono {t u : Text} (h : Written ensureAscii t c) (htu : t ⊆ u) :
    Written ensureAscii u c :=
  h.imp_right fun ⟨hea, hc, hmem⟩ => ⟨hea, hc, htu hmem⟩

theorem isPlain_of_isWordChar (h : c.isWordChar = true) : IsPlain c := by
  simp only [isWordChar, isDigit, Bool.or_eq_true, Bool.and_eq_true, decide_eq_true_eq] at h
  unfold IsPlain
  rcases h with ((((h | h) | h) | rfl) | rfl) | rfl
  all_goals omega

theorem isPlain_of_wordKind (h : wordKind t = some kind) :
    ∀ c ∈ t, IsPlain c :=
  fun c hc => isPlain_of_isWordChar (isWordChar_of_wordKind h c hc)

theorem isPlain_hexDigit (n : Nat) : IsPlain (hexDigit n) := by
  have hlt : n % 16 < 16 := Nat.mod_lt _ (by decide)
  unfold IsPlain hexDigit
  split <;> simp only [Fin.ofNat] <;> omega

theorem isPlain_unicodeEscape {n : Nat} (h : c ∈ unicodeEscape n) : IsPlain c := by
  simp only [unicodeEscape, List.mem_cons, List.not_mem_nil, or_false] at h
  rcases h with rfl | rfl | rfl | rfl | rfl | rfl
  · decide
  · decide
  all_goals exact isPlain_hexDigit _

theorem written_escaped {c d : CodePoint} (h : d ∈ escaped ensureAscii c) :
    Written ensureAscii [c] d := by
  unfold escaped at h
  split at h
  · next e hshort =>
    have hall : ∀ p ∈ shortEscapes, IsPlain p.2 := forall_mem_of_all (by decide)
    obtain ⟨before, after, happ, -⟩ := List.lookup_eq_some_iff.mp hshort
    have he := hall (c, e) (by rw [happ]; simp)
    rcases List.mem_cons.mp h with rfl | h
    · exact Or.inl (by decide)
    · obtain rfl := List.mem_singleton.mp h
      exact Or.inl he
  split at h
  · exact Or.inl (isPlain_unicodeEscape h)
  next hlow =>
  split at h
  · split at h
    · exact Or.inl (isPlain_unicodeEscape h)
    · rcases List.mem_append.mp h with h | h <;> exact Or.inl (isPlain_unicodeEscape h)
  · next hascii =>
    obtain rfl := List.mem_singleton.mp h
    cases ensureAscii with
    | false => exact Or.inr ⟨rfl, by omega, by simp⟩
    | true =>
      rw [Bool.true_and, decide_eq_true_eq] at hascii
      exact Or.inl ⟨by omega, by omega⟩

theorem written_quoted (h : c ∈ quoted ensureAscii t) :
    Written ensureAscii t c := by
  simp only [quoted, List.mem_cons, List.mem_append, List.not_mem_nil, or_false, List.mem_flatMap]
    at h
  rcases h with (rfl | ⟨d, hd, h⟩) | rfl
  · exact Or.inl (by decide)
  · exact (written_escaped h).mono (by simpa using hd)
  · exact Or.inl (by decide)

theorem forall_sequenceText {P : CodePoint → Prop} {close : CodePoint} {texts : List Text}
    (hplain : ∀ c, IsPlain c → P c) (hclose : IsPlain close) (htexts : ∀ t ∈ texts, ∀ c ∈ t, P c) :
    ∀ c ∈ sequenceText close texts, P c := by
  intro c h
  induction texts using sequenceText.induct with
  | case1 =>
    obtain rfl := List.mem_singleton.mp h
    exact hplain _ hclose
  | case2 t =>
    rcases List.mem_append.mp h with h | h
    · exact htexts t (by simp) c h
    · obtain rfl := List.mem_singleton.mp h
      exact hplain _ hclose
  | case3 t u ts ih =>
    simp only [sequenceText, List.mem_append, List.mem_cons] at h
    rcases h with h | rfl | rfl | h
    · exact htexts t (by simp) c h
    · exact hplain _ (by decide)
    · exact hplain _ (by decide)
    · exact ih (fun t ht => htexts t (by simp [ht])) h

theorem written_items {items : List Json}
    (h : ∀ j ∈ items, ∀ c ∈ dumps ensureAscii j, Written ensureAscii (characters j) c) :
    ∀ t ∈ dumpsItems ensureAscii items, ∀ c ∈ t,
      Written ensureAscii (charactersOfItems items) c := by
  induction items with
  | nil => nofun
  | cons j items ih =>
    intro t ht c hc
    rcases List.mem_cons.mp ht with rfl | ht
    · exact (h j (by simp) c hc).mono (List.subset_append_left _ _)
    · exact (ih (fun j hj => h j (by simp [hj])) t ht c hc).mono (List.subset_append_right _ _)

theorem written_members (h : ∀ m ∈ members, ∀ c ∈ dumps ensureAscii m.2, Written ensureAscii (characters m.2) c) :
    ∀ t ∈ dumpsMembers ensureAscii members, ∀ c ∈ t,
      Written ensureAscii (charactersOfMembers members) c := by
  induction members with
  | nil => nofun
  | cons m members ih =>
    obtain ⟨k, v⟩ := m
    intro t ht c hc
    rw [charactersOfMembers]
    rcases List.mem_cons.mp ht with rfl | ht
    · rcases List.mem_append.mp hc with hc | hc
      · exact (written_quoted hc).mono (by simp)
      rcases List.mem_cons.mp hc with rfl | hc
      · exact Or.inl (by decide)
      rcases List.mem_cons.mp hc with rfl | hc
      · exact Or.inl (by decide)
      · exact (h (k, v) (by simp) c hc).mono (by simp)
    · exact (ih (fun m hm => h m (by simp [hm])) t ht c hc).mono (List.subset_append_right _ _)

theorem written_dumps (ensureAscii : Bool) (j : Json) :
    ∀ c ∈ dumps ensureAscii j, Written ensureAscii (characters j) c := by
  induction j using induction with
  | null =>
    have hkind : wordKind (word ['n', 'u', 'l', 'l']) = some .null := by decide
    exact fun c hc => Or.inl (isPlain_of_wordKind hkind c hc)
  | bool b =>
    have hkind : ∃ kind, wordKind (dumps ensureAscii (.bool b)) = some kind := by
      cases b
      · exact ⟨.false, by decide +revert⟩
      · exact ⟨.true, by decide +revert⟩
    obtain ⟨kind, hkind⟩ := hkind
    exact fun c hc => Or.inl (isPlain_of_wordKind hkind c hc)
  | int n => exact fun c hc => Or.inl (isPlain_of_wordKind (wordKind_intText n) c hc)
  | float lit => exact fun c hc => Or.inl (isPlain_of_wordKind lit.valid c hc)
  | str t => exact fun c hc => written_quoted hc
  | arr items ih =>
    intro c hc
    rw [dumps] at hc
    rcases List.mem_cons.mp hc with rfl | hc
    · exact Or.inl (by decide)
    · exact forall_sequenceText (fun c hc => Or.inl hc) (by decide) (written_items ih) c hc
  | obj members ih =>
    intro c hc
    rw [dumps] at hc
    rcases List.mem_cons.mp hc with rfl | hc
    · exact Or.inl (by decide)
    · exact forall_sequenceText (fun c hc => Or.inl hc) (by decide) (written_members ih) c hc

theorem le_of_mem_dumps {j : Json} (h : c ∈ dumps ensureAscii j) :
    0x20 ≤ c.val := by
  rcases written_dumps ensureAscii j c h with hplain | ⟨-, hle, -⟩
  · exact hplain.1
  · exact hle

end Json

end VidbyteSdk.Lib
