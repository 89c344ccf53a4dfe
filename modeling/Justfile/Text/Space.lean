import Justfile.Text

/-!
# White space

The characters with the Unicode property `White_Space`, and the two operations of the selector
language that depend on them: trimming a text and cutting it into words.
-/

set_option autoImplicit false

namespace Justfile.Text

/-- Whether the character has the Unicode property `White_Space`. -/
def isSpace (c : Char) : Bool :=
  let n := c.toNat
  (0x09 ≤ n && n ≤ 0x0d) || n == 0x20 || n == 0x85 || n == 0xa0 || n == 0x1680 ||
    (0x2000 ≤ n && n ≤ 0x200a) || n == 0x2028 || n == 0x2029 || n == 0x202f || n == 0x205f ||
    n == 0x3000

/-- Every character that core counts as white space is one here. -/
theorem isSpace_of_isWhitespace (c : Char) (h : c.isWhitespace = true) : isSpace c = true := by
  simp only [Char.isWhitespace, Bool.or_eq_true, decide_eq_true_eq] at h
  rcases h with ((h | h) | h) | h <;> subst h <;> decide

/-- The text without white space at its two ends. -/
def trim (text : Text) : Text :=
  ((text.dropWhile isSpace).reverse.dropWhile isSpace).reverse

/-- The maximal runs without white space. -/
def words (text : Text) : List Text := (text.splitBy isSpace).filter (· ≠ [])

end Justfile.Text
