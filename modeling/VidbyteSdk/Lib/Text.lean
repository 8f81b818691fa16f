import Mathlib.Data.List.Dedup
import Mathlib.Data.String.Basic

/-!
# Text helpers

The few string operations of the source's language that the models read: `str.strip`, the test for
a blank text, and the sorted form of a set of texts.
-/

namespace VidbyteSdk.Lib

/-- The characters `str.strip` removes: `str.isspace` on one character. -/
def isSpace (c : Char) : Bool :=
  let n := c.toNat
  (9 ≤ n && n ≤ 13) || (28 ≤ n && n ≤ 32) || n == 0x85 || n == 0xA0 || n == 0x1680 ||
    (0x2000 ≤ n && n ≤ 0x200A) || n == 0x2028 || n == 0x2029 || n == 0x202F || n == 0x205F ||
    n == 0x3000

/-- `str.strip()`. -/
def strip (s : String) : String :=
  String.ofList ((s.toList.dropWhile isSpace).reverse.dropWhile isSpace).reverse

/-- `bool(s.strip())`, negated. -/
def isBlank (s : String) : Bool :=
  (strip s).isEmpty

/-- `sorted(set(texts))`. -/
def sortedSet (texts : List String) : List String :=
  texts.dedup.mergeSort fun a b => decide (a ≤ b)

theorem mem_sortedSet {text : String} {texts : List String} :
    text ∈ sortedSet texts ↔ text ∈ texts := by
  simp [sortedSet]

@[simp] theorem sortedSet_eq_nil {texts : List String} : sortedSet texts = [] ↔ texts = [] := by
  simp only [List.eq_nil_iff_forall_not_mem, mem_sortedSet]

end VidbyteSdk.Lib
