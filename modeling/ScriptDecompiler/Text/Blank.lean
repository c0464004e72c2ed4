/-!
# Blank characters and trimming

The blank characters are those with the Unicode property `White_Space`.  The
class is wider than `Char.isWhitespace`, which knows ASCII only and leaves out
two ASCII controls.
-/

namespace ScriptDecompiler.Text

/-- Membership in the Unicode property `White_Space`. -/
def isBlank (c : Char) : Bool :=
  let n := c.toNat
  (0x09 ≤ n && n ≤ 0x0D) || n == 0x20 || n == 0x85 || n == 0xA0 || n == 0x1680 ||
    (0x2000 ≤ n && n ≤ 0x200A) || n == 0x2028 || n == 0x2029 || n == 0x202F ||
    n == 0x205F || n == 0x3000

/-- Drop the longest run at the end of a list whose elements satisfy `p`. -/
def dropEndWhile {α : Type} (p : α → Bool) (xs : List α) : List α :=
  (xs.reverse.dropWhile p).reverse

/-- The characters left after the blanks at both ends are removed. -/
def trimChars (cs : List Char) : List Char :=
  dropEndWhile isBlank (cs.dropWhile isBlank)

/-- A text without the blanks at its two ends. -/
def trim (s : String) : String :=
  String.ofList (trimChars s.toList)

theorem length_dropWhile_le {α : Type} (p : α → Bool) (xs : List α) :
    (xs.dropWhile p).length ≤ xs.length :=
  (List.dropWhile_sublist p).length_le

theorem length_dropEndWhile_le {α : Type} (p : α → Bool) (xs : List α) :
    (dropEndWhile p xs).length ≤ xs.length := by
  have h := length_dropWhile_le p xs.reverse
  simpa [dropEndWhile] using h

/-- Trimming never makes a text longer. -/
theorem length_trimChars_le (cs : List Char) : (trimChars cs).length ≤ cs.length :=
  Nat.le_trans (length_dropEndWhile_le _ _) (length_dropWhile_le _ _)

end ScriptDecompiler.Text
