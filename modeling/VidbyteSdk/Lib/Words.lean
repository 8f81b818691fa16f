import VidbyteSdk.Lib.JsonLaws
import VidbyteSdk.Lib.Lines

/-!
# Blank text, words and line breaks

The string operations of the source's language on texts of code points: `strip`, `split`,
`splitlines`, and the token estimate.
-/

namespace VidbyteSdk.Lib

namespace CodePoint

/-- `str.isspace` on one character, which is what `str.strip` removes. -/
def isSpace (c : CodePoint) : Bool :=
  (0x09 ≤ c.val && c.val ≤ 0x0D) || (0x1C ≤ c.val && c.val ≤ 0x20) || c = 0x85 || c = 0xA0 ||
    c = 0x1680 || (0x2000 ≤ c.val && c.val ≤ 0x200A) || c = 0x2028 || c = 0x2029 || c = 0x202F ||
    c = 0x205F || c = 0x3000

/-- A character at which `str.splitlines` breaks a line. -/
def isLineBreak (c : CodePoint) : Bool :=
  (0x0A ≤ c.val && c.val ≤ 0x0D) || (0x1C ≤ c.val && c.val ≤ 0x1E) || c = 0x85 || c = 0x2028 ||
    c = 0x2029

end CodePoint

namespace Text

/-- `not text.strip()` -/
def isBlank (t : Text) : Bool := t.all CodePoint.isSpace

/-- `text and text.splitlines() != [text]`, negated for a text that is not empty. -/
def isOneLine (t : Text) : Bool := !t.any CodePoint.isLineBreak

/-- `" ".join(text.split())` -/
def joinWords (t : Text) : Text :=
  [0x20].intercalate ((t.splitOnP CodePoint.isSpace).filter fun w => !w.isEmpty)

/-- Whether `text.encode("utf-8")` succeeds. -/
def isUtf8 (t : Text) : Bool := !t.any CodePoint.isSurrogate

/-- `text.rstrip("\r")` -/
def rstripReturn (t : Text) : Text := (t.reverse.dropWhile fun c => c = 0x0D).reverse

/-- `TokenEstimate.count(text)`: a quarter of the characters, rounded up. -/
def tokens (t : Text) : Nat := (t.length + 3) / 4

theorem rstripReturn_of_notMem {t : Text} (h : (0x0D : CodePoint) ∉ t) : rstripReturn t = t := by
  have hdrop : (t.reverse.dropWhile fun c => c = 0x0D) = t.reverse := by
    apply List.dropWhile_eq_self_iff.mpr
    intro hlen hc
    have := of_decide_eq_true hc
    exact h (by rw [← this, ← List.mem_reverse]; exact List.getElem_mem _)
  rw [rstripReturn, hdrop, List.reverse_reverse]

theorem isUtf8_iff {t : Text} : isUtf8 t = true ↔ ∀ c ∈ t, c.isSurrogate = false := by
  simp [isUtf8]

theorem isUtf8_append {t u : Text} (ht : isUtf8 t = true) (hu : isUtf8 u = true) :
    isUtf8 (t ++ u) = true := by
  rw [isUtf8_iff] at *
  intro c hc
  exact (List.mem_append.mp hc).elim (ht c) (hu c)

theorem isUtf8_unlines {ls : List Text} (h : ∀ l ∈ ls, isUtf8 l = true) :
    isUtf8 (unlines ls) = true := by
  induction ls with
  | nil => rfl
  | cons l ls ih =>
    have hnewline : isUtf8 [newline] = true := by decide
    rw [unlines_cons, ← List.singleton_append, ← List.append_assoc]
    exact isUtf8_append (isUtf8_append (h l (by simp)) hnewline) (ih fun l hl => h l (by simp [hl]))

end Text

namespace Json

open Text

theorem isUtf8_charactersOfItems {items : List Json}
    (h : ∀ j ∈ items, isUtf8 (characters j) = true) :
    isUtf8 (charactersOfItems items) = true := by
  induction items with
  | nil => rfl
  | cons j items ih => exact isUtf8_append (h j (by simp)) (ih fun j hj => h j (by simp [hj]))

theorem isUtf8_charactersOfMembers {members : List (Text × Json)}
    (h : ∀ m ∈ members, isUtf8 m.1 = true ∧ isUtf8 (characters m.2) = true) :
    isUtf8 (charactersOfMembers members) = true := by
  induction members with
  | nil => rfl
  | cons m members ih =>
    obtain ⟨hkey, hvalue⟩ := h m (by simp)
    exact isUtf8_append (isUtf8_append hkey hvalue) (ih fun m hm => h m (by simp [hm]))

theorem isUtf8_dumps {ensureAscii : Bool} {j : Json} (h : isUtf8 (characters j) = true) :
    isUtf8 (dumps ensureAscii j) = true := by
  rw [isUtf8_iff] at *
  intro c hc
  rcases written_dumps ensureAscii j c hc with ⟨-, hle⟩ | ⟨-, -, hmem⟩
  · simp only [CodePoint.isSurrogate, CodePoint.isHigh, CodePoint.isLow, Bool.or_eq_false_iff,
      Bool.and_eq_false_iff, decide_eq_false_iff_not]
    omega
  · exact h c hmem

end Json

end VidbyteSdk.Lib
